import Lktrs.Foundation.Scan
import Lktrs.NativeProof.KeyLayout

/-!
# The check of a verifying key, byte by byte

`preflightVerifyingKey` of `backend.go` with the position it keeps: the local functions
`point` and `readU32` look at the bytes behind the position and move it. The program does
what the reader of the rest of the file does (`verifyingKey_eq`), so it never looks outside
of the file. It accepts exactly the files of a grammar (`VerifyingKeyField`) whose parts
are determined by the file (`verifying_key_grammar`).
-/

set_option autoImplicit false

namespace Lktrs.NativeProof

open Lktrs.Foundation

namespace KeyScan

/-! ## The program -/

/-- The size of a point, by its first byte. -/
def pointSize (compressed uncompressed : ℕ) (first : UInt8) : ℕ :=
  if first &&& 0xc0 ≠ 0 then compressed else uncompressed

section Program

variable (raw : List UInt8)

/-- The local function `point`. -/
def point (compressed uncompressed : ℕ) : Scan String Unit := do
  let pos ← get
  Scan.check (pos ≥ raw.length) "truncated verification key point"
  let first ← Scan.byteAt raw pos
  let size := pointSize compressed uncompressed first
  Scan.check (size = 0 ∨ (size : ℤ) > raw.length - pos) "invalid verification key point length"
  set (pos + size)

/-- `point` with the sizes of the first group. -/
def g1 : Scan String Unit := point raw sizeOfG1Compressed sizeOfG1Uncompressed

/-- `point` with the sizes of the second group. -/
def g2 : Scan String Unit := point raw sizeOfG2Compressed sizeOfG2Uncompressed

/-- The local function `readU32`. -/
def readU32 : Scan String ℕ := do
  let pos ← get
  Scan.check ((raw.length : ℤ) - pos < 4) "truncated verification key length"
  let bytes ← Scan.slice raw pos (pos + 4)
  set (pos + 4)
  pure (bigEndianValue bytes)

/-- A length that is missing or too large is refused with one text. -/
def count (max : ℕ) (text : String) : Scan String ℕ := do
  let n ← (readU32 raw).orFail text
  Scan.check (n > max) text
  pure n

/-- The end of a pass of the loop over the metadata rows. -/
def skipRow (total inner : ℕ) : Scan String Unit := do
  let pos ← get
  Scan.check (total + inner > 2 ^ 20 ∨ ((inner * 8 : ℕ) : ℤ) > raw.length - pos)
    "verification key metadata oversized"
  set (pos + inner * 8)

/-- The loop over the metadata rows, with the number of entries so far. -/
def metadata : ℕ → ℕ → Scan String Unit
  | 0, _ => pure ()
  | n + 1, total => do
      let inner ← count raw maxEntries "verification key metadata width is unsafe"
      skipRow raw total inner
      metadata n (total + inner)

/-- `preflightVerifyingKey` up to its last check. -/
def verifyingKeyParts : Scan String Unit := do
  -- [alpha]1, [beta]1, [beta]2, [gamma]2, [delta]1, [delta]2
  g1 raw
  g1 raw
  g2 raw
  g2 raw
  g1 raw
  g2 raw
  let points ← count raw maxEntries "verification key public vector count is unsafe"
  (g1 raw).loop points
  let outer ← count raw maxEntries "verification key metadata count is unsafe"
  metadata raw outer 0
  let commitments ← readU32 raw
  Scan.check (commitments > 64) "verification key commitment count is unsafe"
  -- each commitment key has two points
  ((g2 raw).loop 2).loop commitments

/-- `preflightVerifyingKey`. -/
def verifyingKey : Except (Fault String) Unit :=
  Scan.result do
    verifyingKeyParts raw
    Scan.atEnd raw "trailing verification key bytes"
    pure ()

end Program

/-! ## The rest of the file -/

section Rest

variable (raw : List UInt8)

/-- What a reader that only skips returns. -/
def skipping (skip : List UInt8 → Except String (List UInt8)) (rest : List UInt8) :
    Except String (Unit × List UInt8) :=
  (skip rest).map fun rest => ((), rest)

theorem run_point (compressed uncompressed : ℕ) {pos : ℕ} (hpos : pos < raw.length) :
    (point raw compressed uncompressed).run pos =
      if pointSize compressed uncompressed raw[pos] = 0 ∨
          pointSize compressed uncompressed raw[pos] > raw.length - pos then
        .error (.error "invalid verification key point length")
      else .ok ((), pos + pointSize compressed uncompressed raw[pos]) := by
  rw [point, Scan.run_get_bind, Scan.run_check_bind, if_neg (by omega),
    Scan.run_bind_of_ok (Scan.run_byteAt_of_lt hpos pos), Scan.run_check_bind]
  congr 1
  rw [eq_iff_iff]
  omega

theorem run_point_end (compressed uncompressed : ℕ) :
    (point raw compressed uncompressed).run raw.length =
      .error (.error "truncated verification key point") := by
  rw [point, Scan.run_get_bind, Scan.run_check_bind, if_pos (le_refl _)]

theorem skipPoint_cons (compressed uncompressed : ℕ) (first : UInt8) (rest : List UInt8) :
    skipPoint compressed uncompressed (first :: rest) =
      if pointSize compressed uncompressed first = 0 ∨
          pointSize compressed uncompressed first > (first :: rest).length then
        .error "invalid verification key point length"
      else .ok ((first :: rest).drop (pointSize compressed uncompressed first)) := by
  unfold skipPoint
  rw [rejectIf_of_not (List.cons_ne_nil _ _), ok_bind, List.getD_cons_zero]
  show (rejectIf (pointSize compressed uncompressed first = 0 ∨
      pointSize compressed uncompressed first > (first :: rest).length) _ >>= fun _ =>
    .ok ((first :: rest).drop (pointSize compressed uncompressed first))) = _
  by_cases h : pointSize compressed uncompressed first = 0 ∨
      pointSize compressed uncompressed first > (first :: rest).length
  · rw [rejectIf_of h, if_pos h]
    rfl
  · rw [rejectIf_of_not h, if_neg h]
    rfl

theorem follows_point (compressed uncompressed : ℕ) :
    Follows raw (point raw compressed uncompressed)
      (skipping (skipPoint compressed uncompressed)) := by
  intro pos hpos
  by_cases hend : pos = raw.length
  · subst hend
    rw [List.drop_length]
    exact .inl ⟨"truncated verification key point", rfl, run_point_end raw _ _⟩
  · have hlt : pos < raw.length := by omega
    have hlength : (raw.drop pos).length = raw.length - pos := List.length_drop
    have hskip := skipPoint_cons compressed uncompressed raw[pos] (raw.drop (pos + 1))
    rw [← List.drop_eq_getElem_cons hlt, hlength, List.drop_drop] at hskip
    rw [run_point raw _ _ hlt, skipping, hskip]
    split_ifs with hsize
    · exact .inl ⟨_, rfl, rfl⟩
    · exact .inr ⟨(), _, by omega, rfl, rfl⟩

theorem run_readU32 {pos : ℕ} (hpos : pos ≤ raw.length) :
    (readU32 raw).run pos =
      if raw.length - pos < 4 then .error (.error "truncated verification key length")
      else .ok (bigEndianValue ((raw.drop pos).take 4), pos + 4) := by
  have hcond : ((raw.length : ℤ) - pos < 4) = (raw.length - pos < 4) := by
    rw [eq_iff_iff]
    omega
  rw [readU32, Scan.run_get_bind, Scan.run_check_bind]
  simp only [hcond]
  split_ifs with h
  · rfl
  · have hslice := Scan.run_slice_of_le (ε := String) (by omega : pos ≤ pos + 4)
      (by omega : pos + 4 ≤ raw.length) pos
    rw [Scan.run_bind_of_ok hslice, Nat.add_sub_cancel_left]
    rfl

theorem follows_readU32 : Follows raw (readU32 raw) readLength := by
  intro pos hpos
  have hlength : (raw.drop pos).length = raw.length - pos := List.length_drop
  rw [run_readU32 raw hpos, readLength]
  split_ifs with h
  · exact .inl ⟨_, by rw [rejectIf_of (hlength ▸ h)]; rfl, rfl⟩
  · refine .inr ⟨_, pos + 4, by omega, ?_, rfl⟩
    rw [rejectIf_of_not (hlength ▸ h), ← List.drop_drop]
    rfl

theorem follows_count (max : ℕ) (text : String) :
    Follows raw (count raw max text) (readCount max text) := by
  have hread : readCount max text = fun rest =>
      ((readLength rest).mapError fun _ => text) >>= fun out =>
        if out.1 > max then .error text else .ok (out.1, out.2) := by
    funext rest
    rw [readCount]
    cases readLength rest with
    | error e => rfl
    | ok out => rfl
  rw [hread]
  exact ((follows_readU32 raw).orFail text).bind fun n =>
    Follows.check_bind (t := fun _ => pure n) (Follows.pure n)

/-- One skip after another. -/
theorem follows_skip {s t : Scan String Unit} {skip skip' : List UInt8 → Except String (List UInt8)}
    (hs : Follows raw s (skipping skip)) (ht : Follows raw t (skipping skip')) :
    Follows raw (do s; t) (skipping fun rest => skip rest >>= skip') := by
  have hread : (skipping fun rest => skip rest >>= skip') = fun rest =>
      skipping skip rest >>= fun out => skipping skip' out.2 := by
    funext rest
    rw [skipping, skipping]
    cases skip rest with
    | error e => rfl
    | ok rest' => rfl
  rw [hread]
  exact hs.bind fun _ => ht

/-- A number that is read, then a skip that depends on it. -/
theorem follows_read_skip {s : Scan String ℕ} {t : ℕ → Scan String Unit}
    {f : List UInt8 → Except String (ℕ × List UInt8)}
    {skip : ℕ → List UInt8 → Except String (List UInt8)} (hs : Follows raw s f)
    (ht : ∀ n, Follows raw (t n) (skipping (skip n))) :
    Follows raw (s >>= t) (skipping fun rest => f rest >>= fun out => skip out.1 out.2) := by
  have hread : (skipping fun rest => f rest >>= fun out => skip out.1 out.2) = fun rest =>
      f rest >>= fun out => skipping (skip out.1) out.2 := by
    funext rest
    rw [skipping]
    cases f rest with
    | error e => rfl
    | ok out => rfl
  rw [hread]
  exact hs.bind ht

/-- A check on what was read, then a skip. -/
theorem follows_check_skip {c : Prop} [Decidable c] {text : String} {t : Scan String Unit}
    {skip : List UInt8 → Except String (List UInt8)} (ht : Follows raw t (skipping skip)) :
    Follows raw (do Scan.check c text; t) (skipping fun rest => do rejectIf c text; skip rest) := by
  have hread : (skipping fun rest => do rejectIf c text; skip rest) = fun rest =>
      if c then .error text else skipping skip rest := by
    funext rest
    by_cases hc : c
    · rw [if_pos hc, skipping, rejectIf_of hc]
      rfl
    · rw [if_neg hc, skipping, rejectIf_of_not hc]
      rfl
  rw [hread]
  exact Follows.check_bind ht

theorem follows_loop {s : Scan String Unit} {skip : List UInt8 → Except String (List UInt8)}
    (hs : Follows raw s (skipping skip)) (n : ℕ) :
    Follows raw (s.loop n) (skipping (skipMany skip n)) := by
  induction n with
  | zero => exact Follows.pure ()
  | succ n ih => exact follows_skip raw hs ih

theorem run_skipRow (total inner : ℕ) {pos : ℕ} (hpos : pos ≤ raw.length) :
    (skipRow raw total inner).run pos =
      if total + inner > 2 ^ 20 ∨ inner * 8 > raw.length - pos then
        .error (.error "verification key metadata oversized")
      else .ok ((), pos + inner * 8) := by
  have hcond : (total + inner > 2 ^ 20 ∨ ((inner * 8 : ℕ) : ℤ) > raw.length - pos) =
      (total + inner > 2 ^ 20 ∨ inner * 8 > raw.length - pos) := by
    rw [eq_iff_iff]
    omega
  rw [skipRow, Scan.run_get_bind, Scan.run_check_bind]
  simp only [hcond]
  rfl

theorem follows_skipRow (total inner : ℕ) :
    Follows raw (skipRow raw total inner) (skipping fun rest => do
      rejectIf (total + inner > 2 ^ 20 ∨ inner * 8 > rest.length)
        "verification key metadata oversized"
      pure (rest.drop (inner * 8))) := by
  intro pos hpos
  have hlength : (raw.drop pos).length = raw.length - pos := List.length_drop
  rw [run_skipRow raw total inner hpos, skipping]
  split_ifs with h
  · exact .inl ⟨_, by rw [rejectIf_of (hlength ▸ h)]; rfl, rfl⟩
  · refine .inr ⟨(), pos + inner * 8, by omega, ?_, rfl⟩
    rw [rejectIf_of_not (hlength ▸ h), ← List.drop_drop]
    rfl

theorem follows_metadata (n total : ℕ) :
    Follows raw (metadata raw n total) (skipping (skipMetadata n total)) := by
  induction n generalizing total with
  | zero => exact Follows.pure ()
  | succ n ih =>
      have hread : skipMetadata (n + 1) total = fun rest =>
          readCount maxEntries "verification key metadata width is unsafe" rest >>= fun out =>
            (do
              rejectIf (total + out.1 > 2 ^ 20 ∨ out.1 * 8 > out.2.length)
                "verification key metadata oversized"
              pure (out.2.drop (out.1 * 8))) >>= skipMetadata n (total + out.1) := by
        funext rest
        simp only [bind_assoc, pure_bind]
        rfl
      rw [hread]
      exact follows_read_skip raw (follows_count raw _ _) fun inner =>
        follows_skip raw (follows_skipRow raw total inner) (ih (total + inner))

/-- The reader up to its last check. -/
def skipVerifyingKey (rest : List UInt8) : Except String (List UInt8) := do
  let rest ← skipG1 rest
  let rest ← skipG1 rest
  let rest ← skipG2 rest
  let rest ← skipG2 rest
  let rest ← skipG1 rest
  let rest ← skipG2 rest
  let (count, rest) ← readCount maxEntries "verification key public vector count is unsafe" rest
  let rest ← skipMany skipG1 count rest
  let (outer, rest) ← readCount maxEntries "verification key metadata count is unsafe" rest
  let rest ← skipMetadata outer 0 rest
  let (commitments, rest) ← readLength rest
  rejectIf (commitments > 64) "verification key commitment count is unsafe"
  skipMany (skipMany skipG2 2) commitments rest

theorem preflightVerifyingKey_eq :
    preflightVerifyingKey raw = skipVerifyingKey raw >>= fun rest =>
      rejectIf (rest.length ≠ 0) "trailing verification key bytes" := by
  simp only [preflightVerifyingKey, skipVerifyingKey, bind_assoc]

theorem follows_verifyingKeyParts :
    Follows raw (verifyingKeyParts raw) (skipping skipVerifyingKey) := by
  have hg1 : Follows raw (g1 raw) (skipping skipG1) := follows_point raw _ _
  have hg2 : Follows raw (g2 raw) (skipping skipG2) := follows_point raw _ _
  exact follows_skip raw hg1 <| follows_skip raw hg1 <| follows_skip raw hg2 <|
    follows_skip raw hg2 <| follows_skip raw hg1 <| follows_skip raw hg2 <|
    follows_read_skip raw (follows_count raw _ _) fun n =>
    follows_skip raw (follows_loop raw hg1 n) <|
    follows_read_skip raw (follows_count raw _ _) fun m =>
    follows_skip raw (follows_metadata raw m 0) <|
    follows_read_skip raw (follows_readU32 raw) fun c =>
    follows_check_skip raw (follows_loop raw (follows_loop raw hg2 2) c)

/-- The program with a position and the reader of the rest end in the same way on every
file; in particular the program does not look outside of the file. -/
theorem verifyingKey_eq : verifyingKey raw = (preflightVerifyingKey raw).mapError .error := by
  have hresult := (follows_verifyingKeyParts raw).map_run_atEnd "trailing verification key bytes"
    (Nat.zero_le _)
  rw [preflightVerifyingKey_eq]
  refine hresult.trans (congrArg _ ?_)
  rw [List.drop_zero, skipping]
  cases skipVerifyingKey raw with
  | error e => rfl
  | ok rest => rfl

end Rest

/-! ## The grammar -/

/-- A point, compressed or not as its first byte says. -/
def PointField (compressed uncompressed : ℕ) (point bytes : List UInt8) : Prop :=
  bytes = point ∧ ∃ first rest, point = first :: rest ∧
    point.length = pointSize compressed uncompressed first

/-- A point of the first group. -/
def G1Field : List UInt8 → List UInt8 → Prop := PointField 32 64

/-- A point of the second group. -/
def G2Field : List UInt8 → List UInt8 → Prop := PointField 64 128

/-- A metadata row: its width and eight bytes for each of its entries. -/
def RowField (row : ℕ × List UInt8) (bytes : List UInt8) : Prop :=
  row.1 ≤ maxEntries ∧ row.2.length = 8 * row.1 ∧ bytes = bigEndian 4 row.1 ++ row.2

/-- The metadata rows, with a bound on all entries together. -/
def MetadataField (rows : List (ℕ × List UInt8)) (bytes : List UInt8) : Prop :=
  (rows.map Prod.fst).sum ≤ 2 ^ 20 ∧ Encodes.counted 4 maxEntries RowField rows bytes

/-- The parts of a verifying key. -/
structure VerifyingKeyParts where
  alpha1 : List UInt8
  beta1 : List UInt8
  beta2 : List UInt8
  gamma2 : List UInt8
  delta1 : List UInt8
  delta2 : List UInt8
  publicPoints : List (List UInt8)
  metadata : List (ℕ × List UInt8)
  commitmentKeys : List (List UInt8 × List UInt8)

/-- The parts one after another. -/
def VerifyingKeyField (p : VerifyingKeyParts) : List UInt8 → Prop :=
  (Encodes.seq G1Field <| Encodes.seq G1Field <| Encodes.seq G2Field <| Encodes.seq G2Field <|
    Encodes.seq G1Field <| Encodes.seq G2Field <| Encodes.seq (Encodes.counted 4 maxEntries G1Field) <|
    Encodes.seq MetadataField (Encodes.counted 4 64 (Encodes.seq G2Field G2Field)))
  (p.alpha1, p.beta1, p.beta2, p.gamma2, p.delta1, p.delta2, p.publicPoints, p.metadata,
    p.commitmentKeys)

/-! ### The parts are determined -/

theorem selfDelimiting_pointField (compressed uncompressed : ℕ) :
    SelfDelimiting (PointField compressed uncompressed) := by
  rintro p p' _ _ ys ys' ⟨rfl, first, rest, rfl, hlength⟩ ⟨rfl, first', rest', rfl, hlength'⟩ heq
  -- the first bytes are the same, and so are the sizes
  obtain rfl : first = first' := (List.cons.inj heq).1
  exact List.append_inj heq (hlength.trans hlength'.symm)

theorem selfDelimiting_rowField : SelfDelimiting RowField := by
  rintro ⟨w, data⟩ ⟨w', data'⟩ _ _ ys ys' ⟨hw, hdata, rfl⟩ ⟨hw', hdata', rfl⟩ heq
  have hmax : maxEntries < 256 ^ 4 := by decide
  rw [List.append_assoc, List.append_assoc] at heq
  obtain ⟨hcount, hrest⟩ := List.append_inj heq (by simp)
  obtain rfl : w = w' := bigEndian_inj (hw.trans_lt hmax) (hw'.trans_lt hmax) hcount
  obtain ⟨rfl, hys⟩ := List.append_inj hrest (hdata.trans hdata'.symm)
  exact ⟨rfl, hys⟩

theorem VerifyingKeyField.unique {p p' : VerifyingKeyParts} {raw : List UInt8}
    (h : VerifyingKeyField p raw) (h' : VerifyingKeyField p' raw) : p = p' := by
  have hg1 : SelfDelimiting G1Field := selfDelimiting_pointField _ _
  have hg2 : SelfDelimiting G2Field := selfDelimiting_pointField _ _
  have hmetadata : SelfDelimiting MetadataField := fun rows rows' xs xs' ys ys' h h' heq =>
    selfDelimiting_rowField.counted (by decide) h.2 h'.2 heq
  have hparts := (hg1.seq <| hg1.seq <| hg2.seq <| hg2.seq <| hg1.seq <| hg2.seq <|
    (hg1.counted (by decide)).seq <| hmetadata.seq ((hg2.seq hg2).counted (by decide))).inj h h'
  cases p
  cases p'
  simpa using hparts

/-! ### The program reads the grammar -/

section Reads

variable (raw : List UInt8)

theorem exact_point {compressed uncompressed : ℕ} (hc : 0 < compressed) (hu : 0 < uncompressed) :
    Exact raw (point raw compressed uncompressed)
      fun _ enc => ∃ p, PointField compressed uncompressed p enc := by
  have hpositive : ∀ first, pointSize compressed uncompressed first ≠ 0 := by
    intro first
    unfold pointSize
    split_ifs <;> omega
  constructor
  · intro pos pos' u hpos
    constructor
    · intro h
      -- at the end there is no first byte, and the size of the point hangs on its two high bits
      by_cases hend : pos = raw.length
      · subst hend
        rw [run_point_end] at h
        cases h
      · have hlt : pos < raw.length := by omega
        rw [run_point raw _ _ hlt] at h
        split_ifs at h with hsize
        obtain ⟨-, rfl⟩ := Prod.mk.inj (Except.ok.inj h)
        have hlength : ((raw.drop pos).take (pointSize compressed uncompressed raw[pos])).length =
            pointSize compressed uncompressed raw[pos] := by
          rw [List.length_take, List.length_drop]
          omega
        obtain ⟨m, hm⟩ := Nat.exists_eq_succ_of_ne_zero (hpositive raw[pos])
        have hhead : (raw.drop pos).take (pointSize compressed uncompressed raw[pos]) =
            raw[pos] :: (raw.drop (pos + 1)).take m := by
          rw [hm, List.drop_eq_getElem_cons hlt, List.take_succ_cons]
        exact ⟨_, ⟨_, rfl, raw[pos], _, hhead, hlength⟩, List.take_prefix _ _, by rw [hlength]⟩
    · rintro ⟨_, ⟨_, rfl, first, rest, rfl, hlength⟩, hprefix, rfl⟩
      have hle := add_length_le hpos hprefix
      rw [hlength] at hle
      have hnonzero := hpositive first
      have hlt : pos < raw.length := by omega
      -- the byte the program looks at is the first byte of the field
      rw [List.drop_eq_getElem_cons hlt] at hprefix
      obtain rfl : first = raw[pos] := (List.cons_prefix_cons.1 hprefix).1
      rw [run_point raw _ _ hlt, if_neg (by omega), hlength]
  · intro pos hpos
    by_cases hend : pos = raw.length
    · subst hend
      rw [run_point_end]
      simp
    · rw [run_point raw _ _ (by omega)]
      split_ifs <;> simp

theorem exact_g1 : Exact raw (g1 raw) fun _ enc => ∃ p, G1Field p enc :=
  exact_point raw (by decide) (by decide)

theorem exact_g2 : Exact raw (g2 raw) fun _ enc => ∃ p, G2Field p enc :=
  exact_point raw (by decide) (by decide)

theorem exact_readU32 :
    Exact raw (readU32 raw) fun n enc => n < 256 ^ 4 ∧ enc = bigEndian 4 n := by
  have hblock : Exact raw (readU32 raw) fun n enc => enc.length = 4 ∧ n = bigEndianValue enc := by
    apply Exact.block
    · intro pos hroom
      rw [run_readU32 raw (by omega), if_neg (by omega)]
    · intro pos hpos hroom
      exact ⟨_, by rw [run_readU32 raw hpos, if_pos (by omega)]⟩
  apply hblock.congr
  intro n enc
  constructor
  · rintro ⟨hlength, rfl⟩
    exact ⟨hlength ▸ bigEndianValue_lt enc, (hlength ▸ bigEndian_bigEndianValue enc).symm⟩
  · rintro ⟨hlt, rfl⟩
    exact ⟨length_bigEndian 4 n, (bigEndianValue_bigEndian_of_lt hlt).symm⟩

theorem exact_count {max : ℕ} (hmax : max < 256 ^ 4) (text : String) :
    Exact raw (count raw max text) fun n enc => n ≤ max ∧ enc = bigEndian 4 n := by
  apply (((exact_readU32 raw).orFail text).bind fun n _ _ =>
    Exact.check_bind _ fun _ => Exact.pure n).congr
  intro n enc
  constructor
  · rintro ⟨n, _, _, ⟨-, rfl⟩, ⟨hle, rfl, rfl⟩, rfl⟩
    exact ⟨not_lt.1 hle, List.append_nil _⟩
  · rintro ⟨hle, rfl⟩
    exact ⟨n, _, _, ⟨hle.trans_lt hmax, rfl⟩, ⟨not_lt.2 hle, rfl, rfl⟩, (List.append_nil _).symm⟩

theorem exact_skipRow (total inner : ℕ) :
    Exact raw (skipRow raw total inner) fun _ enc =>
      total + inner ≤ 2 ^ 20 ∧ enc.length = 8 * inner := by
  constructor
  · intro pos pos' u hpos
    rw [run_skipRow raw total inner hpos]
    constructor
    · intro h
      split_ifs at h with hsize
      obtain ⟨-, rfl⟩ := Prod.mk.inj (Except.ok.inj h)
      have hlength : ((raw.drop pos).take (inner * 8)).length = inner * 8 := by
        rw [List.length_take, List.length_drop]
        omega
      exact ⟨_, ⟨by omega, by omega⟩, List.take_prefix (inner * 8) _, by rw [hlength]⟩
    · rintro ⟨enc, ⟨htotal, hlength⟩, hprefix, rfl⟩
      have hle := add_length_le hpos hprefix
      rw [if_neg (by omega), hlength, Nat.mul_comm]
  · intro pos hpos
    rw [run_skipRow raw total inner hpos]
    split_ifs <;> simp

/-- The loop over the rows, from a total within the bound. -/
theorem exact_metadata (n total : ℕ) (htotal : total ≤ 2 ^ 20) :
    Exact raw (metadata raw n total) fun _ enc => ∃ rows, rows.length = n ∧
      total + (rows.map Prod.fst).sum ≤ 2 ^ 20 ∧ Encodes.many RowField rows enc := by
  -- on the number of rows left; the total is the one of the rows already read, and the check of
  -- the row keeps it within the bound for the rest
  induction n generalizing total with
  | zero =>
      apply (Exact.pure ()).congr
      intro _ enc
      constructor
      · rintro ⟨-, rfl⟩
        exact ⟨[], rfl, htotal, .nil⟩
      · rintro ⟨rows, hlength, -, hmany⟩
        obtain rfl := List.length_eq_zero_iff.1 hlength
        cases hmany
        exact ⟨rfl, rfl⟩
  | succ n ih =>
      apply ((exact_count raw (by decide) _).bind fun inner _ _ =>
        (exact_skipRow raw total inner).bind fun _ _ hrow => ih (total + inner) hrow.1).congr
      intro _ enc
      constructor
      · rintro ⟨inner, _, _, ⟨hinner, rfl⟩, ⟨_, data, ys, ⟨-, hdata⟩, ⟨rows, hlength, hsum, hmany⟩,
          rfl⟩, rfl⟩
        refine ⟨(inner, data) :: rows, congrArg Nat.succ hlength, ?_, ?_⟩
        · rw [List.map_cons, List.sum_cons, ← Nat.add_assoc]
          exact hsum
        · rw [← List.append_assoc]
          exact .cons ⟨hinner, hdata, rfl⟩ hmany
      · rintro ⟨rows, hlength, hsum, hmany⟩
        cases hmany with
        | nil => cases hlength
        | @cons row rows xs ys hrow hmany =>
            obtain ⟨hinner, hdata, rfl⟩ := hrow
            rw [List.map_cons, List.sum_cons, ← Nat.add_assoc] at hsum
            exact ⟨row.1, _, _, ⟨hinner, rfl⟩, ⟨(), row.2, ys, ⟨by omega, hdata⟩,
              ⟨rows, Nat.succ.inj hlength, hsum, hmany⟩, rfl⟩, List.append_assoc _ _ _⟩

/-- The program up to its last check reads the parts of a key. -/
theorem exact_verifyingKeyParts :
    Exact raw (verifyingKeyParts raw) fun _ enc => ∃ p, VerifyingKeyField p enc := by
  have hpairs : Exact raw ((g2 raw).loop 2) fun _ enc =>
      ∃ pair, Encodes.seq G2Field G2Field pair enc := by
    apply ((exact_g2 raw).loop 2).congr
    intro _ enc
    constructor
    · rintro ⟨as, hlength, hmany⟩
      match as, hlength, hmany with
      | [_, _], _, .cons h (.cons h' .nil) =>
          exact ⟨(_, _), _, _, h, h', by rw [List.append_nil]⟩
    · rintro ⟨⟨p, q⟩, xs, ys, h, h', rfl⟩
      have hmany : Encodes.many G2Field [p, q] (xs ++ (ys ++ [])) := .cons h (.cons h' .nil)
      rw [List.append_nil] at hmany
      exact ⟨[p, q], rfl, hmany⟩
  -- the fields one after another, as the program reads them
  apply ((exact_g1 raw).bind fun _ _ _ => (exact_g1 raw).bind fun _ _ _ =>
    (exact_g2 raw).bind fun _ _ _ => (exact_g2 raw).bind fun _ _ _ =>
    (exact_g1 raw).bind fun _ _ _ => (exact_g2 raw).bind fun _ _ _ =>
    (exact_count raw (by decide) _).bind fun n _ _ =>
    ((exact_g1 raw).loop n).bind fun _ _ _ =>
    (exact_count raw (by decide) _).bind fun m _ _ =>
    (exact_metadata raw m 0 (Nat.zero_le _)).bind fun _ _ _ =>
    (exact_readU32 raw).bind fun c _ _ => Exact.check_bind _ fun _ => hpairs.loop c).congr
  intro _ enc
  constructor
  · rintro ⟨_, _, _, ⟨alpha1, h1⟩, ⟨_, _, _, ⟨beta1, h2⟩, ⟨_, _, _, ⟨beta2, h3⟩, ⟨_, _, _,
      ⟨gamma2, h4⟩, ⟨_, _, _, ⟨delta1, h5⟩, ⟨_, _, _, ⟨delta2, h6⟩, ⟨_, _, _, ⟨hn, rfl⟩, ⟨_, _, _,
      ⟨points, rfl, h7⟩, ⟨_, _, _, ⟨hm, rfl⟩, ⟨_, _, _, ⟨rows, rfl, hsum, h8⟩, ⟨_, _, _, ⟨-, rfl⟩,
      ⟨hc, keys, rfl, h9⟩, rfl⟩, rfl⟩, rfl⟩, rfl⟩, rfl⟩, rfl⟩, rfl⟩, rfl⟩, rfl⟩, rfl⟩, rfl⟩
    rw [Nat.zero_add] at hsum
    refine ⟨⟨alpha1, beta1, beta2, gamma2, delta1, delta2, points, rows, keys⟩,
      _, _, h1, ⟨_, _, h2, ⟨_, _, h3, ⟨_, _, h4, ⟨_, _, h5, ⟨_, _, h6, ⟨_, _, ⟨hn, _, h7, rfl⟩,
        ⟨_, _, ⟨hsum, hm, _, h8, rfl⟩, ⟨not_lt.1 hc, _, h9, rfl⟩, rfl⟩, rfl⟩, rfl⟩, rfl⟩, rfl⟩, rfl⟩,
        rfl⟩, ?_⟩
    simp only [List.append_assoc]
  · rintro ⟨⟨alpha1, beta1, beta2, gamma2, delta1, delta2, points, rows, keys⟩,
      _, _, h1, ⟨_, _, h2, ⟨_, _, h3, ⟨_, _, h4, ⟨_, _, h5, ⟨_, _, h6, ⟨_, _, ⟨hn, _, h7, rfl⟩,
        ⟨_, _, ⟨hsum, hm, _, h8, rfl⟩, ⟨hc, _, h9, rfl⟩, rfl⟩, rfl⟩, rfl⟩, rfl⟩, rfl⟩, rfl⟩,
        rfl⟩, rfl⟩
    have hc4 : keys.length < 256 ^ 4 := lt_of_le_of_lt hc (by decide)
    refine ⟨(), _, _, ⟨alpha1, h1⟩, ⟨(), _, _, ⟨beta1, h2⟩, ⟨(), _, _, ⟨beta2, h3⟩, ⟨(), _, _,
      ⟨gamma2, h4⟩, ⟨(), _, _, ⟨delta1, h5⟩, ⟨(), _, _, ⟨delta2, h6⟩, ⟨_, _, _, ⟨hn, rfl⟩, ⟨(), _, _,
      ⟨points, rfl, h7⟩, ⟨_, _, _, ⟨hm, rfl⟩, ⟨(), _, _, ⟨rows, rfl, by rwa [Nat.zero_add], h8⟩,
      ⟨_, _, _, ⟨hc4, rfl⟩, ⟨not_lt.2 hc, keys, rfl, h9⟩, rfl⟩, rfl⟩, rfl⟩, rfl⟩, rfl⟩, rfl⟩, rfl⟩,
      rfl⟩, rfl⟩, rfl⟩, ?_⟩
    simp only [List.append_assoc]

end Reads

/-! ### What the file must hold -/

theorem le_length_pointField {compressed uncompressed : ℕ} (h : compressed ≤ uncompressed)
    {p bytes : List UInt8} (hp : PointField compressed uncompressed p bytes) :
    compressed ≤ bytes.length := by
  obtain ⟨rfl, first, rest, rfl, hlength⟩ := hp
  rw [hlength, pointSize]
  split_ifs <;> omega

/-- The counts of a key are paid for by its bytes. -/
theorem VerifyingKeyField.counts_le {p : VerifyingKeyParts} {raw : List UInt8}
    (h : VerifyingKeyField p raw) :
    32 * p.publicPoints.length + 4 * p.metadata.length + 8 * (p.metadata.map Prod.fst).sum +
      128 * p.commitmentKeys.length ≤ raw.length := by
  obtain ⟨alpha1, beta1, beta2, gamma2, delta1, delta2, points, rows, keys⟩ := p
  obtain ⟨_, _, -, ⟨_, _, -, ⟨_, _, -, ⟨_, _, -, ⟨_, _, -, ⟨_, _, -, ⟨_, _, ⟨-, xs, hpoints, rfl⟩,
    ⟨_, _, ⟨-, -, ys, hrows, rfl⟩, ⟨-, zs, hkeys, rfl⟩, rfl⟩, rfl⟩, rfl⟩, rfl⟩, rfl⟩, rfl⟩, rfl⟩,
    rfl⟩ := h
  -- the three lists, each with the least size of one of its entries
  have hsum1 := hpoints.sum_le (fun _ => 32) fun hp => le_length_pointField (by decide) hp
  have hsum2 := hrows.sum_le (fun row => 4 + 8 * row.1) (by
    rintro row _ ⟨-, hdata, rfl⟩
    rw [List.length_append, length_bigEndian, hdata])
  have hsum3 := hkeys.sum_le (fun _ => 128) (by
    rintro ⟨a, b⟩ _ ⟨us, vs, ha, hb, rfl⟩
    have h1 := le_length_pointField (by decide) ha
    have h2 := le_length_pointField (by decide) hb
    rw [List.length_append]
    omega)
  have hsplit : ∀ rows : List (ℕ × List UInt8), (rows.map fun row => 4 + 8 * row.1).sum =
      4 * rows.length + 8 * (rows.map Prod.fst).sum := by
    intro rows
    induction rows with
    | nil => rfl
    | cons row rows ih =>
        simp only [List.map_cons, List.sum_cons, List.length_cons, ih]
        omega
  rw [List.map_const', List.sum_replicate, smul_eq_mul] at hsum1 hsum3
  rw [hsplit] at hsum2
  dsimp only at hsum1 hsum2 hsum3 ⊢
  simp only [List.length_append]
  omega

/-- The check of a verifying key accepts exactly a grammar: six points, the points of the
public inputs, the metadata rows and the commitment keys, with bounds on all counts and
nothing behind them. It ends on every file and never looks outside of it, the parts are
determined by the file, and the counts are paid for by its length. -/
theorem verifying_key_grammar (raw : List UInt8) :
    verifyingKey raw = (preflightVerifyingKey raw).mapError .error ∧
    verifyingKey raw ≠ .error .outOfRange ∧
    (preflightVerifyingKey raw = .ok () ↔ ∃ p, VerifyingKeyField p raw) ∧
    (∀ p p', VerifyingKeyField p raw → VerifyingKeyField p' raw → p = p') ∧
    ∀ p, VerifyingKeyField p raw →
      32 * p.publicPoints.length + 4 * p.metadata.length + 8 * (p.metadata.map Prod.fst).sum +
        128 * p.commitmentKeys.length ≤ raw.length := by
  have hexact := exact_verifyingKeyParts raw
  have hok : preflightVerifyingKey raw = .ok () ↔ verifyingKey raw = .ok () := by
    rw [verifyingKey_eq, mapError_eq_ok]
  refine ⟨verifyingKey_eq raw, hexact.result_ne_outOfRange _, ?_,
    fun p p' h h' => h.unique h', fun p h => h.counts_le⟩
  rw [hok]
  exact hexact.result_eq_ok _

end KeyScan

end Lktrs.NativeProof
