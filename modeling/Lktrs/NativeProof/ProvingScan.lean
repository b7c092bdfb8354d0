import Lktrs.NativeProof.ExponentModel
import Lktrs.NativeProof.KeyScan

/-!
# The check of a proving key, byte by byte

`preflightProvingKey` of `setup_encoding.go` with the position it keeps. As for verifying
keys, the program does what the reader of the rest of the file does (`provingKey_eq`) and
never looks outside of the file, and it accepts exactly the layout that the circuit fixes
(`proving_key_layout`).
-/

set_option autoImplicit false

namespace Lktrs.NativeProof

open Lktrs.Foundation

namespace ProvingScan

open KeyScan (skipping follows_skip follows_read_skip follows_check_skip)

/-! ## The program -/

section Program

variable (raw : List UInt8)

/-- The local function `take`. -/
def take (n : ℕ) : Scan String (List UInt8) := do
  let pos ← get
  Scan.check ((n : ℤ) > raw.length - pos) "truncated proving key"
  let b ← Scan.slice raw pos (pos + n)
  set (pos + n)
  pure b

/-- The local functions `u32` and `u64`, by their width. -/
def number (width : ℕ) : Scan String ℕ := do
  let b ← take raw width
  pure (bigEndianValue b)

/-- The loop of `points` over the taken bytes. -/
def compressedAll (b : List UInt8) (width : ℕ) : List ℕ → Scan String Unit
  | [] => pure ()
  | i :: is => do
      let first ← Scan.byteAt b (i * width)
      Scan.check (first &&& 0xc0 = 0) "uncompressed PK point forbidden"
      compressedAll b width is

/-- The local function `points`: compressed points only. -/
def points (n width : ℕ) : Scan String Unit := do
  let pos ← get
  Scan.check ((n : ℤ) > (raw.length - pos) / width) "unsafe PK point count"
  let b ← take raw (n * width)
  compressedAll b width (List.range n)

/-- A number that is missing or fails a test is refused with one text. -/
def checked (width : ℕ) (bad : ℕ → Bool) (text : String) : Scan String ℕ := do
  let n ← (number raw width).orFail text
  Scan.check (bad n = true) text
  pure n

/-- The local function `vector`: a count and that many points. -/
def vector (width max : ℕ) : Scan String ℕ := do
  let n ← checked raw 4 (· > max) "unsafe PK vector length"
  points raw n width
  pure n

/-- One pass of the loop over the two rows of infinity flags. -/
def infinityFlags (wires count : ℕ) : Scan String Unit := do
  let flags ← take raw wires
  Scan.check (flags.any (fun v => v > 1) = true) "invalid PK infinity flag"
  Scan.check ((flags.map UInt8.toNat).sum ≠ count) "PK infinity flags mismatch"
  pure ()

/-- The loop over the commitment bases, numbered from `i`. -/
def commitmentBases (wires : ℕ) : ℕ → List ℕ → Scan String Unit
  | _, [] => pure ()
  | i, width :: widths => do
      let a ← vector raw 32 wires
      let b ← vector raw 32 wires
      Scan.check (a ≠ b ∨ a ≠ width) s!"PK commitment basis {i} differs from circuit"
      commitmentBases wires (i + 1) widths

/-- The check of the domain at the start of the file. -/
def domain (expected : List UInt8) : Scan String Unit := do
  Scan.check (raw.length < domainSize) "PK FFT domain differs from circuit"
  let found ← Scan.slice raw 0 (domainSize - 1)
  let wanted ← Scan.slice expected 0 (domainSize - 1)
  Scan.check (found ≠ wanted) "PK FFT domain differs from circuit"
  let flag ← Scan.byteAt raw (domainSize - 1)
  Scan.check (flag > 1) "PK FFT domain differs from circuit"
  set domainSize

/-- What the check of a proving key takes from the circuit. -/
structure Shape where
  constraints : ℕ
  cardinality : ℕ
  wires : ℕ
  /-- The number of wires that the vector `K` has a point for. -/
  privateWires : ℤ
  /-- The numbers of private wires of the commitments. -/
  widths : List ℕ

/-- The sections behind the domain. -/
def sections (shape : Shape) : Scan String Unit := do
  points raw 3 32
  let na ← vector raw 32 shape.wires
  let nb ← vector raw 32 shape.wires
  let nz ← vector raw 32 shape.constraints.nextPowerOfTwo
  let nk ← vector raw 32 shape.wires
  Scan.check ((nk : ℤ) ≠ shape.privateWires ∨ (nz : ℤ) ≠ shape.cardinality - 1)
    "PK private or quotient vector differs from circuit"
  points raw 2 64
  let nb2 ← vector raw 64 shape.wires
  let nw ← checked raw 8 (· != shape.wires) "PK wire count differs from circuit"
  let ia ← checked raw 8 (· > nw) "invalid PK infinity count"
  let ib ← checked raw 8 (· > nw) "invalid PK infinity count"
  Scan.check ((na : ℤ) ≠ shape.wires - ia ∨ (nb : ℤ) ≠ shape.wires - ib ∨ nb2 ≠ nb)
    "inconsistent PK point vectors"
  infinityFlags raw shape.wires ia
  infinityFlags raw shape.wires ib
  let _ ← checked raw 4 (· != shape.widths.length) "PK commitment count differs from circuit"
  commitmentBases raw shape.wires 0 shape.widths

end Program

section Keys

variable {zk : Groth16} (keys : KeyLibrary zk)

/-- The shape of a circuit with these commitments. -/
def shapeOf (cs : zk.ConstraintSystem) (commitments : List keys.Commitment) : Shape where
  constraints := keys.constraints cs
  cardinality := keys.domainCardinality (keys.constraints cs)
  wires := keys.publicVariables cs + keys.secretVariables cs + keys.internalVariables cs
  privateWires := keys.secretVariables cs + keys.internalVariables cs - commitments.length -
    (commitments.map keys.privateCommitted).sum
  widths := commitments.map keys.privateCommitted

/-- `preflightProvingKey`. -/
def provingKey (raw : List UInt8) (cs : zk.ConstraintSystem) : Except (Fault String) Unit :=
  Scan.result do
    let expected ← Scan.lift (keys.writeDomain (keys.constraints cs))
    domain raw expected
    match keys.commitments cs with
    | none => Scan.fail "unsupported commitments"
    | some commitments => do
        sections raw (shapeOf keys cs commitments)
        Scan.atEnd raw "trailing proving key bytes"
        pure ()

end Keys

/-! ## The rest of the file -/

section Rest

variable (raw : List UInt8)

theorem run_take (n : ℕ) {pos : ℕ} (hpos : pos ≤ raw.length) :
    (take raw n).run pos = if n > raw.length - pos then .error (.error "truncated proving key")
      else .ok ((raw.drop pos).take n, pos + n) := by
  have hcond : ((n : ℤ) > raw.length - pos) = (n > raw.length - pos) := by
    rw [eq_iff_iff]
    omega
  rw [take, Scan.run_get_bind, Scan.run_check_bind]
  simp only [hcond]
  split_ifs with h
  · rfl
  · have hslice := Scan.run_slice_of_le (ε := String) (by omega : pos ≤ pos + n)
      (by omega : pos + n ≤ raw.length) pos
    rw [Scan.run_bind_of_ok hslice, Nat.add_sub_cancel_left]
    rfl

theorem follows_take (n : ℕ) : Follows raw (take raw n) (takeBytes n) := by
  intro pos hpos
  have hlength : (raw.drop pos).length = raw.length - pos := List.length_drop
  rw [run_take raw n hpos, takeBytes]
  split_ifs with h
  · exact .inl ⟨_, by rw [rejectIf_of (hlength ▸ h)]; rfl, rfl⟩
  · refine .inr ⟨_, pos + n, by omega, ?_, rfl⟩
    rw [rejectIf_of_not (hlength ▸ h), ← List.drop_drop]
    rfl

theorem follows_number (width : ℕ) : Follows raw (number raw width) (takeNumber width) :=
  (follows_take raw width).bind fun b => Follows.pure (bigEndianValue b)

/-- The loop over the points of a slice does not move the position. -/
theorem run_compressedAll (b : List UInt8) (width : ℕ) {is : List ℕ}
    (his : ∀ i ∈ is, i * width < b.length) (pos : ℕ) :
    (compressedAll b width is).run pos = ((is.forM fun i =>
      rejectIf (compressedAt b (i * width) = false) "uncompressed PK point forbidden").mapError
        .error).map fun _ => ((), pos) := by
  induction is with
  | nil => rfl
  | cons i is ih =>
      rw [List.forall_mem_cons] at his
      have hflag : compressedAt b (i * width) = false ↔ b[i * width] &&& 0xc0 = 0 := by
        simp [compressedAt, List.getElem?_eq_getElem his.1]
      rw [compressedAll, Scan.run_bind_of_ok (Scan.run_byteAt_of_lt his.1 pos), Scan.run_check_bind]
      show _ = ((rejectIf (compressedAt b (i * width) = false) _ >>= fun _ => is.forM _).mapError
        _).map _
      by_cases hc : b[i * width] &&& 0xc0 = 0
      · rw [if_pos hc, rejectIf_of (hflag.2 hc)]
        rfl
      · rw [if_neg hc, rejectIf_of_not (fun h => hc (hflag.1 h)), ih his.2]
        rfl

theorem run_points (n : ℕ) {width : ℕ} (hwidth : 0 < width) {pos : ℕ} (hpos : pos ≤ raw.length) :
    (points raw n width).run pos =
      if n > (raw.length - pos) / width then .error (.error "unsafe PK point count")
      else (((List.range n).forM fun i => rejectIf
        (compressedAt ((raw.drop pos).take (n * width)) (i * width) = false)
          "uncompressed PK point forbidden").mapError .error).map fun _ => ((), pos + n * width) := by
  have hcond : ((n : ℤ) > (raw.length - pos) / width) = (n > (raw.length - pos) / width) := by
    rw [← Nat.cast_sub hpos, ← Int.natCast_ediv, gt_iff_lt, Nat.cast_lt]
  rw [points, Scan.run_get_bind, Scan.run_check_bind]
  simp only [hcond]
  split_ifs with h
  · rfl
  · have hfits : n * width ≤ raw.length - pos :=
      (Nat.le_div_iff_mul_le hwidth).1 (not_lt.1 h)
    have htake := run_take raw (n * width) hpos
    rw [if_neg (by omega)] at htake
    have hlength : ((raw.drop pos).take (n * width)).length = n * width := by
      rw [List.length_take, List.length_drop]
      omega
    rw [Scan.run_bind_of_ok htake, run_compressedAll]
    intro i hi
    rw [hlength]
    exact Nat.mul_lt_mul_of_pos_right (List.mem_range.1 hi) hwidth

theorem follows_points (n : ℕ) {width : ℕ} (hwidth : 0 < width) :
    Follows raw (points raw n width) (skipping (skipPoints n width)) := by
  intro pos hpos
  have hlength : (raw.drop pos).length = raw.length - pos := List.length_drop
  rw [run_points raw n hwidth hpos, skipping, skipPoints, takeBytes]
  split_ifs with h
  · exact .inl ⟨_, by rw [rejectIf_of (hlength ▸ h)]; rfl, rfl⟩
  · have hfits : n * width ≤ raw.length - pos :=
      (Nat.le_div_iff_mul_le hwidth).1 (not_lt.1 h)
    rw [rejectIf_of_not (hlength ▸ h), rejectIf_of_not (by omega)]
    cases hloop : (List.range n).forM fun i => rejectIf
        (compressedAt ((raw.drop pos).take (n * width)) (i * width) = false)
          "uncompressed PK point forbidden" with
    | error e =>
        refine .inl ⟨e, ?_, rfl⟩
        change Except.map _ ((List.range n).forM _ >>= fun _ => _) = _
        rw [hloop]
        rfl
    | ok u =>
        refine .inr ⟨(), pos + n * width, by omega, ?_, rfl⟩
        change Except.map _ ((List.range n).forM _ >>= fun _ => _) = _
        rw [hloop, ← List.drop_drop]
        rfl

theorem follows_checked (width : ℕ) (bad : ℕ → Bool) (text : String) :
    Follows raw (checked raw width bad text) (takeChecked width bad text) := by
  have hread : takeChecked width bad text = fun rest =>
      ((takeNumber width rest).mapError fun _ => text) >>= fun out =>
        if bad out.1 = true then .error text else .ok (out.1, out.2) := by
    funext rest
    rw [takeChecked]
    cases takeNumber width rest with
    | error e => rfl
    | ok out => rfl
  rw [hread]
  exact ((follows_number raw width).orFail text).bind fun n =>
    Follows.check_bind (t := fun _ => pure n) (Follows.pure n)

theorem follows_vector {width : ℕ} (hwidth : 0 < width) (max : ℕ) :
    Follows raw (vector raw width max) (skipVector width max) := by
  have hread : skipVector width max = fun rest =>
      takeChecked 4 (· > max) "unsafe PK vector length" rest >>= fun out =>
        skipping (skipPoints out.1 width) out.2 >>= fun out' => .ok (out.1, out'.2) := by
    funext rest
    rw [skipVector, takeChecked]
    cases takeNumber 4 rest with
    | error e => rfl
    | ok out =>
        obtain ⟨n, rest'⟩ := out
        by_cases hmax : n > max
        · simp only [rejectIf_of hmax, decide_eq_true hmax]
          rfl
        · simp only [rejectIf_of_not hmax, decide_eq_false hmax, skipping, ok_bind,
            Bool.false_eq_true, if_false]
          cases skipPoints n width rest' with
          | error e => rfl
          | ok rest'' => rfl
  rw [hread]
  exact (follows_checked raw 4 _ _).bind fun n =>
    (follows_points raw n hwidth).bind fun _ => Follows.pure n

theorem follows_infinityFlags (wires count : ℕ) :
    Follows raw (infinityFlags raw wires count) (skipping (checkInfinityFlags wires count)) := by
  have hread : skipping (checkInfinityFlags wires count) = fun rest =>
      takeBytes wires rest >>= fun out =>
        if out.1.any (fun v => v > 1) = true then .error "invalid PK infinity flag"
        else if (out.1.map UInt8.toNat).sum ≠ count then .error "PK infinity flags mismatch"
        else .ok ((), out.2) := by
    funext rest
    rw [skipping, checkInfinityFlags]
    cases takeBytes wires rest with
    | error e => rfl
    | ok out =>
        obtain ⟨flags, rest'⟩ := out
        simp only [ok_bind]
        by_cases hflag : flags.any (fun v => v > 1) = true
        · rw [if_pos hflag, rejectIf_of hflag]
          rfl
        · rw [if_neg hflag, rejectIf_of_not hflag, ok_bind]
          by_cases hsum : (flags.map UInt8.toNat).sum ≠ count
          · rw [if_pos hsum, rejectIf_of hsum]
            rfl
          · rw [if_neg hsum, rejectIf_of_not hsum]
            rfl
  rw [hread]
  exact (follows_take raw wires).bind fun flags =>
    Follows.check_bind (t := fun _ => do
      Scan.check ((flags.map UInt8.toNat).sum ≠ count) "PK infinity flags mismatch"
      pure ()) (Follows.check_bind (t := fun _ => pure ()) (Follows.pure ()))

theorem follows_commitmentBases (wires i : ℕ) (widths : List ℕ) :
    Follows raw (commitmentBases raw wires i widths)
      (skipping (checkCommitmentBases wires i widths)) := by
  induction widths generalizing i with
  | nil => exact Follows.pure ()
  | cons width widths ih =>
      have hvector := follows_vector raw (by decide : 0 < 32) wires
      exact follows_read_skip raw hvector fun a => follows_read_skip raw hvector fun b =>
        follows_check_skip raw (ih (i + 1))

/-- The reader of the sections behind the domain. -/
def skipSections (shape : Shape) (rest : List UInt8) : Except String (List UInt8) := do
  let rest ← skipPoints 3 32 rest
  let (na, rest) ← skipVector 32 shape.wires rest
  let (nb, rest) ← skipVector 32 shape.wires rest
  let (nz, rest) ← skipVector 32 shape.constraints.nextPowerOfTwo rest
  let (nk, rest) ← skipVector 32 shape.wires rest
  rejectIf ((nk : ℤ) ≠ shape.privateWires ∨ (nz : ℤ) ≠ shape.cardinality - 1)
    "PK private or quotient vector differs from circuit"
  let rest ← skipPoints 2 64 rest
  let (nb2, rest) ← skipVector 64 shape.wires rest
  let (nw, rest) ← takeChecked 8 (· != shape.wires) "PK wire count differs from circuit" rest
  let (ia, rest) ← takeChecked 8 (· > nw) "invalid PK infinity count" rest
  let (ib, rest) ← takeChecked 8 (· > nw) "invalid PK infinity count" rest
  rejectIf ((na : ℤ) ≠ shape.wires - ia ∨ (nb : ℤ) ≠ shape.wires - ib ∨ nb2 ≠ nb)
    "inconsistent PK point vectors"
  let rest ← checkInfinityFlags shape.wires ia rest
  let rest ← checkInfinityFlags shape.wires ib rest
  let (_, rest) ← takeChecked 4 (· != shape.widths.length)
    "PK commitment count differs from circuit" rest
  checkCommitmentBases shape.wires 0 shape.widths rest

theorem follows_sections (shape : Shape) :
    Follows raw (sections raw shape) (skipping (skipSections shape)) := by
  have h32 : 0 < 32 := by decide
  have h64 : 0 < 64 := by decide
  exact follows_skip raw (follows_points raw 3 h32) <|
    follows_read_skip raw (follows_vector raw h32 _) fun na =>
    follows_read_skip raw (follows_vector raw h32 _) fun nb =>
    follows_read_skip raw (follows_vector raw h32 _) fun nz =>
    follows_read_skip raw (follows_vector raw h32 _) fun nk => follows_check_skip raw <|
    follows_skip raw (follows_points raw 2 h64) <|
    follows_read_skip raw (follows_vector raw h64 _) fun nb2 =>
    follows_read_skip raw (follows_checked raw 8 _ _) fun nw =>
    follows_read_skip raw (follows_checked raw 8 _ _) fun ia =>
    follows_read_skip raw (follows_checked raw 8 _ _) fun ib => follows_check_skip raw <|
    follows_skip raw (follows_infinityFlags raw _ ia) <|
    follows_skip raw (follows_infinityFlags raw _ ib) <|
    follows_read_skip raw (follows_checked raw 4 _ _) fun _ =>
    follows_commitmentBases raw _ 0 _

/-- The start of the file is compared with the expected domain. -/
theorem run_domain {expected : List UInt8} (hexpected : domainSize - 1 ≤ expected.length) (pos : ℕ) :
    (domain raw expected).run pos =
      if raw.length < domainSize ∨ raw.take (domainSize - 1) ≠ expected.take (domainSize - 1) ∨
          raw.getD (domainSize - 1) 0 > 1 then
        .error (.error "PK FFT domain differs from circuit")
      else .ok ((), domainSize) := by
  rw [domain, Scan.run_check_bind]
  by_cases hlength : raw.length < domainSize
  · rw [if_pos hlength, if_pos (.inl hlength)]
  · have hlt : domainSize - 1 < raw.length := by
      have hpos : 0 < domainSize := by decide
      omega
    have hflag : raw.getD (domainSize - 1) 0 = raw[domainSize - 1] := by
      rw [List.getD_eq_getElem?_getD, List.getElem?_eq_getElem hlt, Option.getD_some]
    have hfound := Scan.run_slice_of_le (ε := String) (Nat.zero_le (domainSize - 1)) hlt.le pos
    have hwanted := Scan.run_slice_of_le (ε := String) (Nat.zero_le (domainSize - 1)) hexpected pos
    rw [if_neg hlength, Scan.run_bind_of_ok hfound, Scan.run_bind_of_ok hwanted,
      Scan.run_check_bind, List.drop_zero, List.drop_zero, Nat.sub_zero]
    by_cases hhead : raw.take (domainSize - 1) ≠ expected.take (domainSize - 1)
    · rw [if_pos hhead, if_pos (.inr (.inl hhead))]
    · rw [if_neg hhead, Scan.run_bind_of_ok (Scan.run_byteAt_of_lt hlt pos), Scan.run_check_bind,
        hflag]
      by_cases hone : raw[domainSize - 1] > 1
      · rw [if_pos hone, if_pos (.inr (.inr hone))]
      · rw [if_neg hone, if_neg (by tauto)]
        rfl

end Rest

section KeysRest

variable {zk : Groth16} (keys : KeyLibrary zk)

theorem preflightProvingKey_eq (raw : List UInt8) (cs : zk.ConstraintSystem) :
    preflightProvingKey keys raw cs = (do
      let expected ← keys.writeDomain (keys.constraints cs)
      rejectIf (raw.length < domainSize ∨
        raw.take (domainSize - 1) ≠ expected.take (domainSize - 1) ∨
          raw.getD (domainSize - 1) 0 > 1) "PK FFT domain differs from circuit"
      match keys.commitments cs with
      | none => .error "unsupported commitments"
      | some commitments => do
          let rest ← skipSections (shapeOf keys cs commitments) (raw.drop domainSize)
          rejectIf (rest.length ≠ 0) "trailing proving key bytes") := by
  rw [preflightProvingKey]
  cases keys.commitments cs with
  | none => rfl
  | some commitments =>
      simp only [skipSections, shapeOf, bind_assoc, List.length_map]
      rfl

/-- The program with a position and the reader of the rest end in the same way on every
file, as long as the library writes a domain of the expected size. -/
theorem provingKey_eq (raw : List UInt8) (cs : zk.ConstraintSystem)
    (hdomain : ∀ expected, keys.writeDomain (keys.constraints cs) = .ok expected →
      domainSize - 1 ≤ expected.length) :
    provingKey keys raw cs = (preflightProvingKey keys raw cs).mapError .error := by
  rw [preflightProvingKey_eq, provingKey]
  cases hexpected : keys.writeDomain (keys.constraints cs) with
  | error e => rfl
  | ok expected =>
      have hrun := run_domain raw (hdomain expected hexpected) 0
      have hlift : (Scan.lift (.ok expected : Except String (List UInt8))).run 0 =
          .ok (expected, 0) := rfl
      rw [Scan.result, Scan.run_bind_of_ok hlift, ok_bind]
      split_ifs at hrun with hcond
      · rw [Scan.run_bind_of_error hrun, rejectIf_of hcond]
        rfl
      · rw [Scan.run_bind_of_ok hrun, rejectIf_of_not hcond, ok_bind]
        cases keys.commitments cs with
        | none => rfl
        | some commitments =>
            have hle : domainSize ≤ raw.length := by
              rw [not_or] at hcond
              exact not_lt.1 hcond.1
            have hend := (follows_sections raw (shapeOf keys cs commitments)).map_run_atEnd
              "trailing proving key bytes" hle
            refine hend.trans (congrArg _ ?_)
            dsimp only
            rw [skipping]
            cases skipSections (shapeOf keys cs commitments) (raw.drop domainSize) with
            | error e => rfl
            | ok rest => rfl

end KeysRest

/-! ## The layout -/

/-- A compressed point. -/
def CompressedField (width : ℕ) (point bytes : List UInt8) : Prop :=
  bytes = point ∧ point.length = width ∧ compressedAt point 0 = true

/-- Compressed points behind their number. -/
def VectorField (width : ℕ) : List (List UInt8) → List UInt8 → Prop :=
  Encodes.counted 4 (2 ^ 32 - 1) (CompressedField width)

/-- A number of one width. -/
def NumberField (width n : ℕ) (bytes : List UInt8) : Prop :=
  n < 256 ^ width ∧ bytes = bigEndian width n

/-- Bytes as they are. -/
def BytesField (value bytes : List UInt8) : Prop := bytes = value

/-- The parts of a proving key behind the domain. -/
structure ProvingKeyParts where
  first : List (List UInt8)
  a : List (List UInt8)
  b : List (List UInt8)
  z : List (List UInt8)
  k : List (List UInt8)
  second : List (List UInt8)
  b2 : List (List UInt8)
  infinityA : ℕ
  infinityB : ℕ
  flagsA : List UInt8
  flagsB : List UInt8
  bases : List (List (List UInt8) × List (List UInt8))

/-- A row of infinity flags. -/
structure FlagRow (wires count : ℕ) (flags : List UInt8) : Prop where
  length : flags.length = wires
  binary : ∀ v ∈ flags, v ≤ 1
  sum : (flags.map UInt8.toNat).sum = count

/-- The parts one after another, with the lengths that the circuit fixes. -/
structure SectionsField (shape : Shape) (p : ProvingKeyParts) (bytes : List UInt8) : Prop where
  first_length : p.first.length = 3
  second_length : p.second.length = 2
  a_length : p.a.length + p.infinityA = shape.wires
  b_length : p.b.length + p.infinityB = shape.wires
  b2_length : p.b2.length = p.b.length
  z_length : p.z.length + 1 = shape.cardinality
  k_length : (p.k.length : ℤ) = shape.privateWires
  flagsA : FlagRow shape.wires p.infinityA p.flagsA
  flagsB : FlagRow shape.wires p.infinityB p.flagsB
  bases_lengths : p.bases.map (fun basis => basis.1.length) = shape.widths
  bases_equal : ∀ basis ∈ p.bases, basis.1.length = basis.2.length
  layout : (Encodes.seq (Encodes.many (CompressedField 32)) <| Encodes.seq (VectorField 32) <|
    Encodes.seq (VectorField 32) <| Encodes.seq (VectorField 32) <| Encodes.seq (VectorField 32) <|
    Encodes.seq (Encodes.many (CompressedField 64)) <| Encodes.seq (VectorField 64) <|
    Encodes.seq (NumberField 8) <| Encodes.seq (NumberField 8) <| Encodes.seq (NumberField 8) <|
    Encodes.seq BytesField <| Encodes.seq BytesField <| Encodes.seq (NumberField 4)
      (Encodes.many (Encodes.seq (VectorField 32) (VectorField 32))))
    (p.first, p.a, p.b, p.z, p.k, p.second, p.b2, shape.wires, p.infinityA, p.infinityB, p.flagsA,
      p.flagsB, shape.widths.length, p.bases) bytes

/-- A proving key: the expected domain, its flag and the sections. -/
def ProvingKeyField (expected : List UInt8) (shape : Shape) (flag : UInt8) (p : ProvingKeyParts)
    (raw : List UInt8) : Prop :=
  flag ≤ 1 ∧ ∃ rest, SectionsField shape p rest ∧
    raw = expected.take (domainSize - 1) ++ flag :: rest

/-- What the claims of a circuit about its own sizes amount to. -/
structure Shape.WellFormed (shape : Shape) : Prop where
  cardinality_eq : shape.cardinality = shape.constraints.nextPowerOfTwo
  private_le : shape.privateWires ≤ shape.wires
  widths_le : ∀ width ∈ shape.widths, width ≤ shape.wires

/-! ### The program reads the layout -/

section Reads

variable (raw : List UInt8)

theorem exact_take (n : ℕ) :
    Exact raw (take raw n) fun b enc => enc.length = n ∧ b = enc := by
  apply Exact.block (f := fun b => b)
  · intro pos hroom
    rw [run_take raw n (by omega), if_neg (by omega)]
  · intro pos hpos hroom
    exact ⟨_, by rw [run_take raw n hpos, if_pos (by omega)]⟩

theorem exact_number (width : ℕ) : Exact raw (number raw width) (NumberField width) := by
  apply (exact_take raw width).bind_pure.congr
  intro n enc
  constructor
  · rintro ⟨b, ⟨rfl, rfl⟩, rfl⟩
    exact ⟨bigEndianValue_lt _, (bigEndian_bigEndianValue _).symm⟩
  · rintro ⟨hlt, rfl⟩
    exact ⟨_, ⟨length_bigEndian _ _, rfl⟩, (bigEndianValue_bigEndian_of_lt hlt).symm⟩

theorem exact_checked (width : ℕ) (bad : ℕ → Bool) (text : String) :
    Exact raw (checked raw width bad text) fun n enc => bad n = false ∧ NumberField width n enc := by
  apply (((exact_number raw width).orFail text).bind fun n _ _ =>
    Exact.check_bind _ fun _ => Exact.pure n).congr
  intro n enc
  constructor
  · rintro ⟨n, _, _, hn, ⟨hgood, rfl, rfl⟩, rfl⟩
    exact ⟨Bool.eq_false_of_not_eq_true hgood, by rwa [List.append_nil]⟩
  · rintro ⟨hgood, hn⟩
    exact ⟨n, enc, [], hn, ⟨by simp [hgood], rfl, rfl⟩, (List.append_nil _).symm⟩

theorem compressedAt_append_left {p : List UInt8} (hp : p ≠ []) (ys : List UInt8) :
    compressedAt (p ++ ys) 0 = compressedAt p 0 := by
  cases p with
  | nil => exact absurd rfl hp
  | cons first rest => rfl

theorem compressedAt_append_right (p ys : List UInt8) (offset : ℕ) :
    compressedAt (p ++ ys) (p.length + offset) = compressedAt ys offset := by
  rw [compressedAt, compressedAt, List.getD_eq_getElem?_getD, List.getD_eq_getElem?_getD,
    List.getElem?_append_right (Nat.le_add_right _ _), Nat.add_sub_cancel_left]

/-- Points of one width stand at the multiples of the width. -/
theorem many_compressed_iff {width : ℕ} (hwidth : 0 < width) (n : ℕ) (bytes : List UInt8) :
    (∃ ps, ps.length = n ∧ Encodes.many (CompressedField width) ps bytes) ↔
      bytes.length = n * width ∧ ∀ i < n, compressedAt bytes (i * width) = true := by
  -- on the number of points: the first point is cut off and the offsets of the others move down
  induction n generalizing bytes with
  | zero =>
      constructor
      · rintro ⟨ps, hlength, hmany⟩
        obtain rfl := List.length_eq_zero_iff.1 hlength
        cases hmany
        exact ⟨by simp, fun i hi => absurd hi (Nat.not_lt_zero _)⟩
      · rintro ⟨hlength, -⟩
        rw [Nat.zero_mul] at hlength
        obtain rfl := List.length_eq_zero_iff.1 hlength
        exact ⟨[], rfl, .nil⟩
  | succ n ih =>
      constructor
      · rintro ⟨ps, hlength, hmany⟩
        cases hmany with
        | nil => cases hlength
        | @cons _ ps xs ys hp hmany =>
            obtain ⟨rfl, hp, hfirst⟩ := hp
            obtain ⟨hys, hrest⟩ := (ih ys).1 ⟨ps, Nat.succ.inj hlength, hmany⟩
            refine ⟨by rw [List.length_append, hp, hys]; ring, ?_⟩
            intro i hi
            cases i with
            | zero =>
                rw [Nat.zero_mul, compressedAt_append_left (List.ne_nil_of_length_pos (by omega))]
                exact hfirst
            | succ i =>
                rw [show (i + 1) * width = xs.length + i * width by rw [hp]; ring,
                  compressedAt_append_right]
                exact hrest i (by omega)
      · rintro ⟨hlength, hall⟩
        have hlong : width ≤ bytes.length := by
          rw [hlength]
          exact Nat.le_mul_of_pos_left _ (Nat.succ_pos n)
        have htake : (bytes.take width).length = width := by
          rw [List.length_take]
          omega
        have hsplit := List.take_append_drop width bytes
        -- what stands behind the first point satisfies the condition for one point less
        have hrest : (bytes.drop width).length = n * width ∧
            ∀ i < n, compressedAt (bytes.drop width) (i * width) = true := by
          refine ⟨by rw [List.length_drop, hlength, Nat.succ_mul]; omega, ?_⟩
          intro i hi
          have hat := compressedAt_append_right (bytes.take width) (bytes.drop width) (i * width)
          rw [hsplit, htake, show width + i * width = (i + 1) * width by ring,
            hall (i + 1) (by omega)] at hat
          exact hat.symm
        obtain ⟨ps, hps, hmany⟩ := (ih _).2 hrest
        have hnonempty : bytes.take width ≠ [] := List.ne_nil_of_length_pos (by omega)
        have hfirst := compressedAt_append_left hnonempty (bytes.drop width)
        have hzero := hall 0 (Nat.succ_pos n)
        rw [Nat.zero_mul] at hzero
        rw [hsplit, hzero] at hfirst
        have hcons := Encodes.many.cons (R := CompressedField width)
          ⟨rfl, htake, hfirst.symm⟩ hmany
        rw [hsplit] at hcons
        exact ⟨bytes.take width :: ps, congrArg Nat.succ hps, hcons⟩

theorem exact_points (n : ℕ) {width : ℕ} (hwidth : 0 < width) :
    Exact raw (points raw n width) fun _ enc =>
      ∃ ps, ps.length = n ∧ Encodes.many (CompressedField width) ps enc := by
  -- the loop over the first bytes is a condition on all multiples of the width
  have hloop : ∀ b : List UInt8, ((List.range n).forM fun i => rejectIf
      (compressedAt b (i * width) = false) "uncompressed PK point forbidden") = .ok () ↔
        ∀ i < n, compressedAt b (i * width) = true := by
    intro b
    simp only [forM_eq_ok, rejectIf_eq_ok, List.mem_range, Bool.not_eq_false]
  constructor
  · intro pos pos' u hpos
    rw [run_points raw n hwidth hpos]
    simp only [many_compressed_iff hwidth]
    constructor
    · intro h
      split_ifs at h with hshort
      -- the program compares the count with a quotient, the field has the product
      have hfits : n * width ≤ raw.length - pos :=
        (Nat.le_div_iff_mul_le hwidth).1 (not_lt.1 hshort)
      have hlength : ((raw.drop pos).take (n * width)).length = n * width := by
        rw [List.length_take, List.length_drop]
        omega
      cases hchecks : (List.range n).forM fun i => rejectIf
          (compressedAt ((raw.drop pos).take (n * width)) (i * width) = false)
            "uncompressed PK point forbidden" with
      | error e =>
          rw [hchecks] at h
          cases h
      | ok v =>
          rw [hchecks] at h
          obtain ⟨-, rfl⟩ := Prod.mk.inj (Except.ok.inj h)
          exact ⟨_, ⟨hlength, (hloop _).1 hchecks⟩, List.take_prefix _ _, by rw [hlength]⟩
    · rintro ⟨enc, ⟨hlength, hall⟩, hprefix, rfl⟩
      have hle := add_length_le hpos hprefix
      have hfits : n ≤ (raw.length - pos) / width :=
        (Nat.le_div_iff_mul_le hwidth).2 (by omega)
      rw [if_neg (not_lt.2 hfits), ← hlength, ← List.prefix_iff_eq_take.1 hprefix, (hloop enc).2 hall]
      rfl
  · intro pos hpos
    rw [run_points raw n hwidth hpos]
    split_ifs
    · simp
    · cases (List.range n).forM fun i => rejectIf
          (compressedAt ((raw.drop pos).take (n * width)) (i * width) = false)
            "uncompressed PK point forbidden" with
      | error e => simp [Except.mapError, Except.map]
      | ok v => simp [Except.mapError, Except.map]

/-- A vector, with its number of points as the result. -/
theorem exact_vector {width : ℕ} (hwidth : 0 < width) (max : ℕ) :
    Exact raw (vector raw width max) fun n enc =>
      ∃ ps, ps.length = n ∧ n ≤ max ∧ VectorField width ps enc := by
  apply ((exact_checked raw 4 _ _).bind fun n _ _ =>
    (exact_points raw n hwidth).bind_pure).congr
  intro n enc
  constructor
  · rintro ⟨n, _, _, ⟨hgood, hlt, rfl⟩, ⟨_, ⟨ps, rfl, hmany⟩, rfl⟩, rfl⟩
    exact ⟨ps, rfl, not_lt.1 (of_decide_eq_false hgood), Nat.le_sub_one_of_lt hlt, _, hmany, rfl⟩
  · rintro ⟨ps, rfl, hmax, hlt, xs, hmany, rfl⟩
    exact ⟨ps.length, _, _, ⟨decide_eq_false (not_lt.2 hmax), Nat.lt_of_le_sub_one (by decide) hlt,
      rfl⟩, ⟨(), ⟨ps, rfl, hmany⟩, rfl⟩, rfl⟩

theorem exact_infinityFlags (wires count : ℕ) :
    Exact raw (infinityFlags raw wires count) fun _ enc => FlagRow wires count enc := by
  apply ((exact_take raw wires).bind fun flags _ _ => Exact.check_bind _ fun _ =>
    Exact.check_bind _ fun _ => Exact.pure ()).congr
  intro _ enc
  have hany : ∀ flags : List UInt8, ¬ flags.any (fun v => v > 1) = true ↔ ∀ v ∈ flags, v ≤ 1 := by
    intro flags
    simp
  constructor
  · rintro ⟨_, flags, _, ⟨hlength, rfl⟩, ⟨hbinary, hsum, -, rfl⟩, rfl⟩
    rw [List.append_nil]
    exact ⟨hlength, (hany _).1 hbinary, not_not.1 hsum⟩
  · rintro ⟨hlength, hbinary, hsum⟩
    exact ⟨enc, enc, [], ⟨hlength, rfl⟩, ⟨(hany _).2 hbinary, not_not.2 hsum, rfl, rfl⟩,
      (List.append_nil _).symm⟩

theorem exact_commitmentBases (wires i : ℕ) {widths : List ℕ}
    (hwidths : ∀ width ∈ widths, width ≤ wires) :
    Exact raw (commitmentBases raw wires i widths) fun _ enc => ∃ bases,
      bases.map (fun basis => basis.1.length) = widths ∧
      (∀ basis ∈ bases, basis.1.length = basis.2.length) ∧
      Encodes.many (Encodes.seq (VectorField 32) (VectorField 32)) bases enc := by
  -- on the widths of the circuit; the index only appears in the text of the error
  induction widths generalizing i with
  | nil =>
      apply (Exact.pure ()).congr
      intro _ enc
      constructor
      · rintro ⟨-, rfl⟩
        exact ⟨[], rfl, fun _ h => absurd h List.not_mem_nil, .nil⟩
      · rintro ⟨bases, hlengths, -, hmany⟩
        obtain rfl := List.map_eq_nil_iff.1 hlengths
        cases hmany
        exact ⟨rfl, rfl⟩
  | cons width widths ih =>
      rw [List.forall_mem_cons] at hwidths
      have hvector := exact_vector raw (by decide : 0 < 32) wires
      apply (hvector.bind fun a _ _ => hvector.bind fun b _ _ => Exact.check_bind _ fun _ =>
        ih (i + 1) hwidths.2).congr
      intro _ enc
      constructor
      · rintro ⟨_, _, _, ⟨xs, rfl, -, hxs⟩, ⟨_, _, _, ⟨ys, rfl, -, hys⟩, ⟨hsame, bases, hlengths,
          hequal, hmany⟩, rfl⟩, rfl⟩
        rw [not_or, not_not, not_not] at hsame
        refine ⟨(xs, ys) :: bases, ?_, List.forall_mem_cons.2 ⟨hsame.1, hequal⟩, ?_⟩
        · rw [List.map_cons, hlengths, hsame.2]
        · rw [← List.append_assoc]
          exact .cons ⟨_, _, hxs, hys, rfl⟩ hmany
      · rintro ⟨bases, hlengths, hequal, hmany⟩
        cases hmany with
        | nil => cases hlengths
        | @cons basis bases _ zs hbasis hmany =>
            obtain ⟨us, vs, hxs, hys, rfl⟩ := hbasis
            rw [List.map_cons, List.cons.injEq] at hlengths
            rw [List.forall_mem_cons] at hequal
            have hle : basis.1.length ≤ wires := hlengths.1.trans_le hwidths.1
            refine ⟨_, _, _, ⟨basis.1, rfl, hle, hxs⟩, ⟨_, _, _, ⟨basis.2, rfl, hequal.1 ▸ hle, hys⟩,
              ⟨?_, bases, hlengths.2, hequal.2, hmany⟩, rfl⟩, List.append_assoc _ _ _⟩
            rw [not_or, not_not, not_not]
            exact ⟨hequal.1, hlengths.1⟩

/-- The first five sections; the results are the lengths of `A` and `B`. -/
def pointVectors (shape : Shape) : Scan String (ℕ × ℕ) := do
  points raw 3 32
  let na ← vector raw 32 shape.wires
  let nb ← vector raw 32 shape.wires
  let nz ← vector raw 32 shape.constraints.nextPowerOfTwo
  let nk ← vector raw 32 shape.wires
  Scan.check ((nk : ℤ) ≠ shape.privateWires ∨ (nz : ℤ) ≠ shape.cardinality - 1)
    "PK private or quotient vector differs from circuit"
  pure (na, nb)

/-- The next five; the results are the two numbers of points at infinity. -/
def wireCounts (shape : Shape) (na nb : ℕ) : Scan String (ℕ × ℕ) := do
  points raw 2 64
  let nb2 ← vector raw 64 shape.wires
  let nw ← checked raw 8 (· != shape.wires) "PK wire count differs from circuit"
  let ia ← checked raw 8 (· > nw) "invalid PK infinity count"
  let ib ← checked raw 8 (· > nw) "invalid PK infinity count"
  Scan.check ((na : ℤ) ≠ shape.wires - ia ∨ (nb : ℤ) ≠ shape.wires - ib ∨ nb2 ≠ nb)
    "inconsistent PK point vectors"
  pure (ia, ib)

/-- The last four. -/
def flagsAndBases (shape : Shape) (ia ib : ℕ) : Scan String Unit := do
  infinityFlags raw shape.wires ia
  infinityFlags raw shape.wires ib
  let _ ← checked raw 4 (· != shape.widths.length) "PK commitment count differs from circuit"
  commitmentBases raw shape.wires 0 shape.widths

theorem sections_eq (shape : Shape) :
    sections raw shape = pointVectors raw shape >>= fun n =>
      wireCounts raw shape n.1 n.2 >>= fun i => flagsAndBases raw shape i.1 i.2 := by
  simp only [sections, pointVectors, wireCounts, flagsAndBases, bind_assoc, pure_bind]

theorem exact_pointVectors {shape : Shape} (hshape : shape.WellFormed) :
    Exact raw (pointVectors raw shape) fun n enc => ∃ first a b z k,
      (first.length = 3 ∧ a.length = n.1 ∧ b.length = n.2 ∧ n.1 ≤ shape.wires ∧ n.2 ≤ shape.wires ∧
        z.length + 1 = shape.cardinality ∧ (k.length : ℤ) = shape.privateWires) ∧
      Encodes.seq (Encodes.many (CompressedField 32)) (Encodes.seq (VectorField 32)
        (Encodes.seq (VectorField 32) (Encodes.seq (VectorField 32) (VectorField 32))))
        (first, a, b, z, k) enc := by
  have h32 : 0 < 32 := by decide
  apply ((exact_points raw 3 h32).bind fun _ _ _ =>
    (exact_vector raw h32 _).bind fun na _ _ => (exact_vector raw h32 _).bind fun nb _ _ =>
    (exact_vector raw h32 _).bind fun nz _ _ => (exact_vector raw h32 _).bind fun nk _ _ =>
    Exact.check_bind _ fun _ => Exact.pure (na, nb)).congr
  rintro ⟨na, nb⟩ enc
  constructor
  · rintro ⟨_, _, _, ⟨first, hfirst, h1⟩, ⟨_, _, _, ⟨a, ha, hamax, h2⟩, ⟨_, _, _, ⟨b, hb, hbmax, h3⟩,
      ⟨_, _, _, ⟨z, rfl, -, h4⟩, ⟨_, _, _, ⟨k, rfl, -, h5⟩, ⟨hkz, hpair, rfl⟩, rfl⟩, rfl⟩, rfl⟩,
      rfl⟩, rfl⟩
    obtain ⟨rfl, rfl⟩ := Prod.mk.inj hpair
    rw [not_or, not_not, not_not] at hkz
    refine ⟨first, a, b, z, k, ⟨hfirst, ha, hb, hamax, hbmax, by omega, hkz.1⟩, _, _, h1,
      ⟨_, _, h2, ⟨_, _, h3, ⟨_, _, h4, h5, rfl⟩, rfl⟩, rfl⟩, ?_⟩
    simp only [List.append_nil]
  · rintro ⟨first, a, b, z, k, ⟨hfirst, ha, hb, hamax, hbmax, hz, hk⟩, _, _, h1,
      ⟨_, _, h2, ⟨_, _, h3, ⟨_, _, h4, h5, rfl⟩, rfl⟩, rfl⟩, rfl⟩
    -- the limits of the last two vectors follow from the sizes of the circuit
    have hcard := hshape.cardinality_eq
    have hprivate := hshape.private_le
    refine ⟨(), _, _, ⟨first, hfirst, h1⟩, ⟨_, _, _, ⟨a, ha, hamax, h2⟩, ⟨_, _, _, ⟨b, hb, hbmax, h3⟩,
      ⟨_, _, _, ⟨z, rfl, by omega, h4⟩, ⟨_, _, _, ⟨k, rfl, by omega, h5⟩, ⟨?_, rfl, rfl⟩, rfl⟩, rfl⟩,
      rfl⟩, rfl⟩, ?_⟩
    · rw [not_or, not_not, not_not]
      exact ⟨hk, by omega⟩
    · simp only [List.append_nil]

theorem exact_wireCounts (shape : Shape) (na nb : ℕ) :
    Exact raw (wireCounts raw shape na nb) fun i enc => ∃ second b2,
      (second.length = 2 ∧ b2.length = nb ∧ na + i.1 = shape.wires ∧ nb + i.2 = shape.wires) ∧
      Encodes.seq (Encodes.many (CompressedField 64)) (Encodes.seq (VectorField 64)
        (Encodes.seq (NumberField 8) (Encodes.seq (NumberField 8) (NumberField 8))))
        (second, b2, shape.wires, i.1, i.2) enc := by
  have h64 : 0 < 64 := by decide
  apply ((exact_points raw 2 h64).bind fun _ _ _ => (exact_vector raw h64 _).bind fun nb2 _ _ =>
    (exact_checked raw 8 _ _).bind fun nw _ _ => (exact_checked raw 8 _ _).bind fun ia _ _ =>
    (exact_checked raw 8 _ _).bind fun ib _ _ => Exact.check_bind _ fun _ =>
    Exact.pure (ia, ib)).congr
  rintro ⟨ia, ib⟩ enc
  constructor
  · rintro ⟨_, _, _, ⟨second, hsecond, h1⟩, ⟨_, _, _, ⟨b2, rfl, -, h2⟩, ⟨nw, _, _, ⟨hnw, h3⟩,
      ⟨_, _, _, ⟨hia, h4⟩, ⟨_, _, _, ⟨hib, h5⟩, ⟨hab, hpair, rfl⟩, rfl⟩, rfl⟩, rfl⟩, rfl⟩, rfl⟩
    obtain ⟨rfl, rfl⟩ := Prod.mk.inj hpair
    obtain rfl : nw = shape.wires := by simpa using hnw
    simp only [not_or, not_not] at hab
    refine ⟨second, b2, ⟨hsecond, hab.2.2, by omega, by omega⟩, _, _, h1, ⟨_, _, h2, ⟨_, _, h3,
      ⟨_, _, h4, h5, rfl⟩, rfl⟩, rfl⟩, ?_⟩
    simp only [List.append_nil]
  · rintro ⟨second, b2, ⟨hsecond, hb2, ha, hb⟩, _, _, h1, ⟨_, _, h2, ⟨_, _, h3, ⟨_, _, h4, h5, rfl⟩,
      rfl⟩, rfl⟩, rfl⟩
    refine ⟨(), _, _, ⟨second, hsecond, h1⟩, ⟨_, _, _, ⟨b2, rfl, by omega, h2⟩,
      ⟨shape.wires, _, _, ⟨by simp, h3⟩, ⟨ia, _, _, ⟨decide_eq_false (by dsimp only at ha; omega), h4⟩,
      ⟨ib, _, _, ⟨decide_eq_false (by dsimp only at hb; omega), h5⟩, ⟨?_, rfl, rfl⟩, rfl⟩, rfl⟩, rfl⟩,
      rfl⟩, ?_⟩
    · simp only [not_or, not_not]
      dsimp only at ha hb
      exact ⟨by omega, by omega, hb2⟩
    · simp only [List.append_nil]

theorem exact_flagsAndBases {shape : Shape} (hshape : shape.WellFormed) (ia ib : ℕ) :
    Exact raw (flagsAndBases raw shape ia ib) fun _ enc => ∃ flagsA flagsB bases,
      (FlagRow shape.wires ia flagsA ∧ FlagRow shape.wires ib flagsB ∧
        bases.map (fun basis => basis.1.length) = shape.widths ∧
        ∀ basis ∈ bases, basis.1.length = basis.2.length) ∧
      Encodes.seq BytesField (Encodes.seq BytesField (Encodes.seq (NumberField 4)
        (Encodes.many (Encodes.seq (VectorField 32) (VectorField 32)))))
        (flagsA, flagsB, shape.widths.length, bases) enc := by
  apply ((exact_infinityFlags raw _ ia).bind fun _ _ _ =>
    (exact_infinityFlags raw _ ib).bind fun _ _ _ => (exact_checked raw 4 _ _).bind fun _ _ _ =>
    exact_commitmentBases raw _ 0 hshape.widths_le).congr
  intro _ enc
  constructor
  · rintro ⟨_, flagsA, _, hA, ⟨_, flagsB, _, hB, ⟨n, _, _, ⟨hn, h3⟩, ⟨bases, hlengths, hequal, h4⟩,
      rfl⟩, rfl⟩, rfl⟩
    obtain rfl : n = shape.widths.length := by simpa using hn
    exact ⟨flagsA, flagsB, bases, ⟨hA, hB, hlengths, hequal⟩, _, _, rfl, ⟨_, _, rfl,
      ⟨_, _, h3, h4, rfl⟩, rfl⟩, rfl⟩
  · rintro ⟨flagsA, flagsB, bases, ⟨hA, hB, hlengths, hequal⟩, _, _, rfl, ⟨_, _, rfl,
      ⟨_, _, h3, h4, rfl⟩, rfl⟩, rfl⟩
    exact ⟨(), _, _, hA, ⟨(), _, _, hB, ⟨shape.widths.length, _, _, ⟨by simp, h3⟩,
      ⟨bases, hlengths, hequal, h4⟩, rfl⟩, rfl⟩, rfl⟩

/-- The sections behind the domain, for a circuit whose sizes fit together. -/
theorem exact_sections {shape : Shape} (hshape : shape.WellFormed) :
    Exact raw (sections raw shape) fun _ enc => ∃ p, SectionsField shape p enc := by
  rw [sections_eq]
  apply ((exact_pointVectors raw hshape).bind fun n _ _ =>
    (exact_wireCounts raw shape n.1 n.2).bind fun i _ _ =>
    exact_flagsAndBases raw hshape i.1 i.2).congr
  intro _ enc
  constructor
  · -- one group of fields at a time: the vectors of points, the counts, the flags and the bases
    rintro ⟨⟨na, nb⟩, _, _, hvectors, ⟨⟨ia, ib⟩, _, _, hcounts, hrest, rfl⟩, rfl⟩
    obtain ⟨first, a, b, z, k, ⟨hfirst, rfl, rfl, -, -, hz, hk⟩, _, _, h1, hvectors, rfl⟩ := hvectors
    obtain ⟨_, _, h2, ⟨_, _, h3, ⟨_, _, h4, h5, rfl⟩, rfl⟩, rfl⟩ := hvectors
    obtain ⟨second, b2, ⟨hsecond, hb2, hA, hB⟩, _, _, h6, hcounts, rfl⟩ := hcounts
    obtain ⟨_, _, h7, ⟨_, _, h8, ⟨_, _, h9, h10, rfl⟩, rfl⟩, rfl⟩ := hcounts
    obtain ⟨flagsA, flagsB, bases, ⟨hflagsA, hflagsB, hlengths, hequal⟩, hlayout⟩ := hrest
    obtain ⟨_, _, h11, ⟨_, _, h12, ⟨_, _, h13, h14, rfl⟩, rfl⟩, rfl⟩ := hlayout
    refine ⟨⟨first, a, b, z, k, second, b2, ia, ib, flagsA, flagsB, bases⟩, hfirst, hsecond, hA, hB,
      hb2, hz, hk, hflagsA, hflagsB, hlengths, hequal, _, _, h1, ⟨_, _, h2, ⟨_, _, h3, ⟨_, _, h4,
      ⟨_, _, h5, ⟨_, _, h6, ⟨_, _, h7, ⟨_, _, h8, ⟨_, _, h9, ⟨_, _, h10, ⟨_, _, h11, ⟨_, _, h12,
      ⟨_, _, h13, h14, rfl⟩, rfl⟩, rfl⟩, rfl⟩, rfl⟩, rfl⟩, rfl⟩, rfl⟩, rfl⟩, rfl⟩, rfl⟩, rfl⟩, ?_⟩
    simp only [List.append_assoc]
  · rintro ⟨⟨first, a, b, z, k, second, b2, ia, ib, flagsA, flagsB, bases⟩, hfirst, hsecond, hA, hB,
      hb2, hz, hk, hflagsA, hflagsB, hlengths, hequal, hlayout⟩
    obtain ⟨_, _, h1, ⟨_, _, h2, ⟨_, _, h3, ⟨_, _, h4, ⟨_, _, h5, hlayout, rfl⟩, rfl⟩, rfl⟩, rfl⟩,
      rfl⟩ := hlayout
    obtain ⟨_, _, h6, ⟨_, _, h7, ⟨_, _, h8, ⟨_, _, h9, ⟨_, _, h10, hlayout, rfl⟩, rfl⟩, rfl⟩, rfl⟩,
      rfl⟩ := hlayout
    dsimp only at hA hB
    refine ⟨(a.length, b.length), _, _, ⟨first, a, b, z, k, ⟨hfirst, rfl, rfl, by dsimp only; omega,
      by dsimp only; omega, hz, hk⟩, _, _, h1, ⟨_, _, h2, ⟨_, _, h3, ⟨_, _, h4, h5, rfl⟩, rfl⟩, rfl⟩,
      rfl⟩, ⟨(ia, ib), _, _, ⟨second, b2, ⟨hsecond, hb2, hA, hB⟩, _, _, h6, ⟨_, _, h7, ⟨_, _, h8,
      ⟨_, _, h9, h10, rfl⟩, rfl⟩, rfl⟩, rfl⟩, ⟨flagsA, flagsB, bases,
      ⟨hflagsA, hflagsB, hlengths, hequal⟩, hlayout⟩, rfl⟩, ?_⟩
    simp only [List.append_assoc]

end Reads

/-! ### Accepted files -/

section Accepted

variable {zk : Groth16} (keys : KeyLibrary zk)

/-- What the check assumes of the library for one circuit: the encoding of its FFT domain,
the size of that domain, and commitments to wires that the circuit has. -/
structure CircuitSizes (cs : zk.ConstraintSystem) (expected : List UInt8)
    (commitments : List keys.Commitment) : Prop where
  domain_eq : keys.writeDomain (keys.constraints cs) = .ok expected
  domain_length : expected.length = domainSize
  cardinality_eq : keys.domainCardinality (keys.constraints cs) =
    (keys.constraints cs).nextPowerOfTwo
  commitments_eq : keys.commitments cs = some commitments
  committed_le : ∀ c ∈ commitments, keys.privateCommitted c ≤
    keys.publicVariables cs + keys.secretVariables cs + keys.internalVariables cs

variable {keys} {cs : zk.ConstraintSystem} {expected : List UInt8}
  {commitments : List keys.Commitment}

theorem CircuitSizes.wellFormed (h : CircuitSizes keys cs expected commitments) :
    (shapeOf keys cs commitments).WellFormed where
  cardinality_eq := h.cardinality_eq
  private_le := by
    dsimp only [shapeOf]
    omega
  widths_le := by
    intro width hwidth
    obtain ⟨c, hc, rfl⟩ := List.mem_map.1 hwidth
    exact h.committed_le c hc

/-- The check of the domain lets a file pass exactly when it starts with the domain and a
flag, and the sections are the rest. -/
theorem domain_accepts_iff (hlength : expected.length = domainSize) (raw rest : List UInt8) :
    (¬ (raw.length < domainSize ∨ raw.take (domainSize - 1) ≠ expected.take (domainSize - 1) ∨
        raw.getD (domainSize - 1) 0 > 1) ∧ raw.drop domainSize = rest) ↔
      ∃ flag : UInt8, flag ≤ 1 ∧ raw = expected.take (domainSize - 1) ++ flag :: rest := by
  have hhead : (expected.take (domainSize - 1)).length = domainSize - 1 := by
    rw [List.length_take, hlength]
    exact Nat.min_eq_left (Nat.sub_le _ _)
  have hpos : 0 < domainSize := by decide
  rw [not_or, not_or, not_lt, not_not, gt_iff_lt, UInt8.not_lt]
  constructor
  · rintro ⟨⟨hle, heq, hflag⟩, rfl⟩
    have hlt : domainSize - 1 < raw.length := by omega
    have hdrop := List.drop_eq_getElem_cons hlt
    rw [Nat.sub_add_cancel hpos] at hdrop
    rw [List.getD_eq_getElem?_getD, List.getElem?_eq_getElem hlt, Option.getD_some] at hflag
    refine ⟨_, hflag, ?_⟩
    rw [← heq, ← hdrop, List.take_append_drop]
  · rintro ⟨flag, hflag, rfl⟩
    have hskip : (expected.take (domainSize - 1) ++ [flag]).length = domainSize := by
      rw [List.length_append, hhead, List.length_singleton, Nat.sub_add_cancel hpos]
    refine ⟨⟨?_, List.take_left' hhead, ?_⟩, ?_⟩
    · rw [List.length_append, hhead, List.length_cons]
      omega
    · rw [List.getD_eq_getElem?_getD, List.getElem?_append_right hhead.le, hhead, Nat.sub_self]
      exact hflag
    · rw [List.append_cons, List.drop_left' hskip]

/-- Behind the domain, the sections are the rest of the file. -/
theorem result_sections_iff (h : CircuitSizes keys cs expected commitments) {raw : List UInt8}
    (hle : domainSize ≤ raw.length) :
    ((do sections raw (shapeOf keys cs commitments)
         Scan.atEnd raw "trailing proving key bytes"
         pure () : Scan String Unit).run domainSize).map Prod.fst = .ok () ↔
      ∃ p, SectionsField (shapeOf keys cs commitments) p (raw.drop domainSize) :=
  (exact_sections raw h.wellFormed).map_run_atEnd_eq_ok _ hle

/-- The check runs on every file without a look outside of it, and accepts exactly the
layout that the circuit fixes. -/
theorem proving_key_layout (h : CircuitSizes keys cs expected commitments) (raw : List UInt8) :
    provingKey keys raw cs = (preflightProvingKey keys raw cs).mapError .error ∧
    provingKey keys raw cs ≠ .error .outOfRange ∧
    (provingKey keys raw cs = .ok () ↔
      ∃ flag p, ProvingKeyField expected (shapeOf keys cs commitments) flag p raw) := by
  have hdomain : ∀ found, keys.writeDomain (keys.constraints cs) = .ok found →
      domainSize - 1 ≤ found.length := by
    intro found hfound
    obtain rfl := Except.ok.inj (h.domain_eq.symm.trans hfound)
    rw [h.domain_length]
    exact Nat.sub_le _ _
  have heq := provingKey_eq keys raw cs hdomain
  refine ⟨heq, ?_, ?_⟩
  · rw [heq]
    exact mapError_ne_outOfRange _
  · have hstart := domain_accepts_iff h.domain_length raw
    have hrun := run_domain raw (hdomain expected h.domain_eq) 0
    have hlift : (Scan.lift (.ok expected : Except String (List UInt8))).run 0 =
        .ok (expected, 0) := rfl
    rw [provingKey, Scan.result, h.domain_eq, h.commitments_eq, Scan.run_bind_of_ok hlift]
    split_ifs at hrun with hcond
    · -- a file that does not start with the domain is no proving key
      rw [Scan.run_bind_of_error hrun]
      constructor
      · intro hok
        cases hok
      · rintro ⟨flag, p, hflag, rest, -, hraw⟩
        exact absurd hcond ((hstart rest).2 ⟨flag, hflag, hraw⟩).1
    · have hle : domainSize ≤ raw.length := not_lt.1 (not_or.1 hcond).1
      rw [Scan.run_bind_of_ok hrun]
      refine (result_sections_iff h hle).trans ?_
      constructor
      · rintro ⟨p, hp⟩
        obtain ⟨flag, hflag, hraw⟩ := (hstart _).1 ⟨hcond, rfl⟩
        exact ⟨flag, p, hflag, _, hp, hraw⟩
      · rintro ⟨flag, p, hflag, rest, hp, hraw⟩
        obtain ⟨-, rfl⟩ := (hstart rest).2 ⟨flag, hflag, hraw⟩
        exact ⟨p, hp⟩

def samplePoints : SetupPoints where
  alpha := affineOfLog bn254Fp 1
  beta := affineOfLog bn254Fp 2
  delta := affineOfLog bn254Fp 3
  beta2 := g2OfLog 2
  delta2 := g2OfLog 3

/-- A circuit with one wire of each kind and one commitment to one private wire, in a
library that writes an FFT domain of zeros. -/
def sampleKeys : KeyLibrary sampleGroth16 where
  Commitment := Unit
  constraints _ := 1
  publicVariables _ := 1
  secretVariables _ := 1
  internalVariables _ := 1
  commitments _ := some [()]
  privateCommitted _ := 1
  committedLayout _ _ := [[]]
  domainCardinality n := n.nextPowerOfTwo
  writeDomain _ := .ok (List.replicate domainSize 0)
  readVerifyingKey _ := .error "unsupported"
  readProvingKey _ := .error "unsupported"
  publicPoints _ := 1
  verifyingLayout _ := [[]]
  verifyingPoints _ := samplePoints
  provingPoints _ := samplePoints

theorem sampleKeys_sizes : CircuitSizes sampleKeys () (List.replicate domainSize 0) [()] where
  domain_eq := rfl
  domain_length := List.length_replicate
  cardinality_eq := rfl
  commitments_eq := rfl
  committed_le := by
    intro c _
    show 1 ≤ 1 + 1 + 1
    omega

/-- The compressed encoding of a point at infinity. -/
def infinityPoint (width : ℕ) : List UInt8 := 0xc0 :: List.replicate (width - 1) 0

def infinityVector (n width : ℕ) : List UInt8 :=
  bigEndian 4 n ++ (List.replicate n (infinityPoint width)).flatten

/-- A proving key of the sample circuit with every point of `A` and `B` at infinity. -/
def sampleProvingKey : List UInt8 :=
  List.replicate domainSize 0 ++ (List.replicate 3 (infinityPoint 32)).flatten ++
    infinityVector 0 32 ++ infinityVector 0 32 ++ infinityVector 0 32 ++ infinityVector 0 32 ++
    (List.replicate 2 (infinityPoint 64)).flatten ++ infinityVector 0 64 ++
    bigEndian 8 3 ++ bigEndian 8 3 ++ bigEndian 8 3 ++ [1, 1, 1] ++ [1, 1, 1] ++
    bigEndian 4 1 ++ infinityVector 1 32 ++ infinityVector 1 32

theorem proving_key_layout_sample : CircuitSizes sampleKeys () (List.replicate domainSize 0) [()] ∧
    ∃ flag p, ProvingKeyField (List.replicate domainSize 0) (shapeOf sampleKeys () [()]) flag p
      sampleProvingKey :=
  ⟨sampleKeys_sizes, (proving_key_layout sampleKeys_sizes sampleProvingKey).2.2.1 (by decide +kernel)⟩

end Accepted

end ProvingScan

end Lktrs.NativeProof
