import Lktrs.Foundation.Bytes

/-!
# Length-prefixed frames on a byte stream

A frame is its payload behind a four-byte big-endian length. Frames are
prefix-free (`frame_append_inj`), so the end of one frame is determined by its
own bytes. A `FrameWriter` sends a frame in chunks, first the length and then
the payload; a `FrameReader` takes a frame in chunks, first the length and then
as many bytes as the length says. `FrameWriter.unsent` is what is still to be
sent and `FrameReader.received` what has been taken: the protocols over a stream
are stated in these two terms, and a reader that has taken all it asked for has
received a frame of what it holds (`FrameReader.received_of_complete`).
-/

set_option autoImplicit false

namespace Lktrs.Foundation

/-- A payload behind its length. -/
def frame (payload : List UInt8) : List UInt8 := bigEndian 4 payload.length ++ payload

theorem frame_ne_nil (payload : List UInt8) : frame payload ≠ [] := by
  intro h
  have hlength := congrArg List.length h
  simp [frame] at hlength

/-- The first four bytes of a stream that starts with a frame give its length. -/
theorem eq_bigEndian_of_append_eq_frame {header rest payload : List UInt8}
    (hlength : header.length = 4) (h : header ++ rest = frame payload) :
    header = bigEndian 4 payload.length ∧ rest = payload := by
  apply List.append_inj h
  simpa using hlength

/-- Two streams that start with a frame and agree start with the same frame. -/
theorem frame_append_inj {p q xs ys : List UInt8} (hp : p.length < 256 ^ 4)
    (hq : q.length < 256 ^ 4) (h : frame p ++ xs = frame q ++ ys) : p = q ∧ xs = ys := by
  simp only [frame, List.append_assoc] at h
  obtain ⟨hheader, hbody⟩ := List.append_inj h (by simp)
  exact List.append_inj hbody (bigEndian_inj hp hq hheader)

/-- A frame that is being sent: the bytes of the length still to go with the
payload behind them, or the bytes of the payload still to go. -/
inductive FrameWriter where
  | length (rest payload : List UInt8)
  | body (rest : List UInt8)
deriving Repr, DecidableEq

namespace FrameWriter

/-- Nothing of the frame has been sent. -/
def start (payload : List UInt8) : FrameWriter := .length (bigEndian 4 payload.length) payload

/-- What the current write has left. -/
def pending : FrameWriter → List UInt8
  | .length rest _ => rest
  | .body rest => rest

/-- What is left of the frame. -/
def unsent : FrameWriter → List UInt8
  | .length rest payload => rest ++ payload
  | .body rest => rest

/-- The writer after `n` more bytes went out. -/
def written (n : ℕ) : FrameWriter → FrameWriter
  | .length rest payload => .length (rest.drop n) payload
  | .body rest => .body (rest.drop n)

@[simp] theorem unsent_start (payload : List UInt8) : (start payload).unsent = frame payload := rfl

@[simp] theorem written_zero (w : FrameWriter) : w.written 0 = w := by
  cases w with
  | length rest payload => rfl
  | body rest => rfl

/-- A chunk goes from the front of what is unsent. -/
theorem take_pending_append (w : FrameWriter) (n : ℕ) :
    w.pending.take n ++ (w.written n).unsent = w.unsent := by
  cases w with
  | length rest payload =>
      simp only [pending, written, unsent]
      rw [← List.append_assoc, List.take_append_drop]
  | body rest => exact List.take_append_drop n rest

/-- A frame that is out: the payload was written, or there was none. -/
theorem eq_of_unsent_nil {w : FrameWriter} (h : w.unsent = []) :
    w = .length [] [] ∨ w = .body [] := by
  cases w with
  | length rest payload =>
      obtain ⟨rfl, rfl⟩ := List.append_eq_nil_iff.1 h
      exact Or.inl rfl
  | body rest =>
      obtain rfl : rest = [] := h
      exact Or.inr rfl

end FrameWriter

/-- The length that four bytes encode. -/
def decodeLength (header : List UInt8) : UInt32 := UInt32.ofNat (bigEndianValue header)

theorem toNat_decodeLength {header : List UInt8} (h : header.length = 4) :
    (decodeLength header).toNat = bigEndianValue header := by
  have hlt := bigEndianValue_lt header
  rw [h] at hlt
  exact UInt32.toNat_ofNat_of_lt' hlt

/-- A frame that is being read: the bytes of the length so far, or the length and
the bytes of the payload so far. -/
inductive FrameReader where
  | length (got : List UInt8)
  | body (size : UInt32) (got : List UInt8)
deriving Repr, DecidableEq

namespace FrameReader

/-- Nothing has been read. -/
def start : FrameReader := .length []

/-- How many bytes the current read still asks for. -/
def wanted : FrameReader → ℕ
  | .length got => 4 - got.length
  | .body size got => size.toNat - got.length

/-- The reader after a chunk came in. -/
def accept (chunk : List UInt8) : FrameReader → FrameReader
  | .length got => .length (got ++ chunk)
  | .body size got => .body size (got ++ chunk)

/-- The bytes of the stream that the reader has taken. -/
def received : FrameReader → List UInt8
  | .length got => got
  | .body size got => bigEndian 4 size.toNat ++ got

@[simp] theorem received_start : start.received = [] := rfl

@[simp] theorem accept_nil (r : FrameReader) : r.accept [] = r := by
  cases r with
  | length got => simp [accept]
  | body size got => simp [accept]

@[simp] theorem received_accept (r : FrameReader) (chunk : List UInt8) :
    (r.accept chunk).received = r.received ++ chunk := by
  cases r with
  | length got => rfl
  | body size got => simp [accept, received]

/-- Decoding the length takes no byte from the stream. -/
theorem received_body_nil {got : List UInt8} (h : got.length = 4) :
    (body (decodeLength got) []).received = (length got).received := by
  simp only [received, List.append_nil]
  rw [toNat_decodeLength h, ← h, bigEndian_bigEndianValue]

/-- A reader that has all it asked for has taken one frame. -/
theorem received_of_complete {size : UInt32} {got : List UInt8} (h : got.length = size.toNat) :
    (body size got).received = frame got := by
  simp only [received, frame, h]

/-- What a reader holds when it is complete is shorter than the length field allows. -/
theorem length_lt_of_complete {size : UInt32} {got : List UInt8} (h : got.length = size.toNat) :
    got.length < 256 ^ 4 := by
  rw [h]
  exact size.toNat_lt

end FrameReader

end Lktrs.Foundation
