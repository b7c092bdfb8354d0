import Lktrs.Protocol.NativeProcess

/-!
# One request on the wire

What the two pipes and the child hold while one request is in flight, in terms of
what the host has not yet sent (`unsent`) and what it has already read
(`received`). Between requests both streams are at a frame boundary
(`Boundary`); a request opens an `Exchange` there (`Exchange.opened`), every
partial read and write of either party keeps it, and a request that has read one
whole frame closes it with the response of its own payload and leaves both
streams at a boundary again (`Exchange.closed`).
-/

set_option autoImplicit false

namespace Lktrs.Protocol

open Lktrs.Foundation

universe u

variable {σ : Type u}

theorem maxFrameBytes_eq_limit : maxFrameBytes = limit := rfl

theorem lt_of_le_limit {n : ℕ} (h : n ≤ limit) : n < 256 ^ 4 :=
  lt_of_le_of_lt h (by decide)

/-- The streams between two requests: nothing is in the pipes, the child is about to
read a frame, and it has handled what has been answered. A child that is gone has
left no byte of a response behind. -/
inductive Boundary (c : Child σ) (input output : List UInt8)
    (done : List (List UInt8 × List UInt8)) : Prop
  | ready (hphase : c.phase = .receive .start) (hin : input = []) (hout : output = [])
      (hlog : c.handled = done)
  | replied (writer : FrameWriter) (hphase : c.phase = .reply writer) (hsent : writer.unsent = [])
      (hin : input = []) (hout : output = []) (hlog : c.handled = done)
  | gone (reason : ExitReason) (hphase : c.phase = .exited reason)
      (hreason : reason ≠ .frameTooLarge) (hout : output = []) (hlog : c.handled = done)

theorem Boundary.handled_eq {c : Child σ} {input output : List UInt8}
    {done : List (List UInt8 × List UInt8)} (h : Boundary c input output done) :
    c.handled = done := by
  cases h with
  | ready hphase hin hout hlog => exact hlog
  | replied writer hphase hsent hin hout hlog => exact hlog
  | gone reason hphase hreason hout hlog => exact hlog

theorem Boundary.phase_ne_frameTooLarge {c : Child σ} {input output : List UInt8}
    {done : List (List UInt8 × List UInt8)} (h : Boundary c input output done) :
    c.phase ≠ .exited .frameTooLarge := by
  cases h with
  | ready hphase hin hout hlog => simp [hphase]
  | replied writer hphase hsent hin hout hlog => simp [hphase]
  | gone reason hphase hreason hout hlog => simpa [hphase] using hreason

/-- The streams during a request for `p`. While the child has not handled it, what
the child has read, what is in the pipe and what is unsent make up the frame of
`p`. Once it has, what the host has received, what is in the other pipe and what
the child has not written make up the frame of the response. -/
inductive Exchange (c : Child σ) (input output : List UInt8)
    (done : List (List UInt8 × List UInt8)) (p unsent received : List UInt8) : Prop
  | replied (writer : FrameWriter) (hphase : c.phase = .reply writer) (hsent : writer.unsent = [])
      (hstream : input ++ unsent = frame p) (hout : received ++ output = [])
      (hlog : c.handled = done)
  | asked (reader : FrameReader) (hphase : c.phase = .receive reader)
      (hstream : reader.received ++ (input ++ unsent) = frame p)
      (hout : received ++ output = []) (hlog : c.handled = done)
  | replying (r : List UInt8) (writer : FrameWriter) (hphase : c.phase = .reply writer)
      (hin : input ++ unsent = []) (hsize : r.length ≤ limit)
      (hstream : received ++ output ++ writer.unsent = frame r)
      (hlog : c.handled = done ++ [(p, r)])
  | answered (r : List UInt8) (hphase : c.phase = .receive .start)
      (hin : input ++ unsent = []) (hsize : r.length ≤ limit)
      (hstream : received ++ output = frame r) (hlog : c.handled = done ++ [(p, r)])
  | silent (reason : ExitReason) (extra : List (List UInt8 × List UInt8))
      (hphase : c.phase = .exited reason) (hreason : reason ≠ .frameTooLarge)
      (hout : received ++ output = [])
      (hextra : extra = [] ∨ input ++ unsent = [] ∧ extra.length ≤ 1)
      (hlog : c.handled = done ++ extra)
  | cut (reason : ExitReason) (r rest : List UInt8) (hphase : c.phase = .exited reason)
      (hreason : reason ≠ .frameTooLarge) (hin : input ++ unsent = []) (hsize : r.length ≤ limit)
      (hstream : received ++ output ++ rest = frame r)
      (hlog : c.handled = done ++ [(p, r)])

namespace Exchange

variable {c : Child σ} {input output chunk p unsent received : List UInt8}
  {done : List (List UInt8 × List UInt8)}

/-- A request starts at a boundary with its whole frame unsent. -/
theorem opened (h : Boundary c input output done) (p : List UInt8) :
    Exchange c input output done p (frame p) [] := by
  cases h with
  | ready hphase hin hout hlog => exact .asked .start hphase (by simp [hin]) (by simp [hout]) hlog
  | replied writer hphase hsent hin hout hlog =>
      exact .replied writer hphase hsent (by simp [hin]) (by simp [hout]) hlog
  | gone reason hphase hreason hout hlog =>
      exact .silent reason [] hphase hreason (by simp [hout]) (.inl rfl) (by simp [hlog])

/-- The host writes a chunk. -/
theorem sent (h : Exchange c input output done p (chunk ++ unsent) received) :
    Exchange c (input ++ chunk) output done p unsent received := by
  -- the pipe and what is unsent, read together, do not change
  cases h with
  | replied writer hphase hsent hstream hout hlog =>
      exact .replied writer hphase hsent (by simpa using hstream) hout hlog
  | asked reader hphase hstream hout hlog =>
      exact .asked reader hphase (by simpa using hstream) hout hlog
  | replying r writer hphase hin hsize hstream hlog =>
      exact .replying r writer hphase (by simpa using hin) hsize hstream hlog
  | answered r hphase hin hsize hstream hlog =>
      exact .answered r hphase (by simpa using hin) hsize hstream hlog
  | silent reason extra hphase hreason hout hextra hlog =>
      exact .silent reason extra hphase hreason hout (by simpa using hextra) hlog
  | cut reason r rest hphase hreason hin hsize hstream hlog =>
      exact .cut reason r rest hphase hreason (by simpa using hin) hsize hstream hlog

/-- The host reads a chunk. -/
theorem taken (h : Exchange c input (chunk ++ output) done p unsent received) :
    Exchange c input output done p unsent (received ++ chunk) := by
  cases h with
  | replied writer hphase hsent hstream hout hlog =>
      exact .replied writer hphase hsent hstream (by simpa using hout) hlog
  | asked reader hphase hstream hout hlog =>
      exact .asked reader hphase hstream (by simpa using hout) hlog
  | replying r writer hphase hin hsize hstream hlog =>
      exact .replying r writer hphase hin hsize (by simpa using hstream) hlog
  | answered r hphase hin hsize hstream hlog =>
      exact .answered r hphase hin hsize (by simpa using hstream) hlog
  | silent reason extra hphase hreason hout hextra hlog =>
      exact .silent reason extra hphase hreason (by simpa using hout) hextra hlog
  | cut reason r rest hphase hreason hin hsize hstream hlog =>
      exact .cut reason r rest hphase hreason hin hsize (by simpa using hstream) hlog

/-- The child reads a chunk. After it has answered there is nothing to read. -/
theorem childRead {reader : FrameReader} (hreader : c.phase = .receive reader)
    (hchunk : chunk ≠ []) (h : Exchange c (chunk ++ input) output done p unsent received) :
    Exchange { c with phase := .receive (reader.accept chunk) } input output done p unsent
      received := by
  cases h with
  | asked reader' hphase hstream hout hlog =>
      obtain rfl : reader = reader' := by simpa [hreader] using hphase
      exact .asked _ rfl (by simpa using hstream) hout hlog
  | answered r hphase hin hsize hstream hlog => simp [hchunk] at hin
  | replied writer hphase hsent hstream hout hlog => simp [hreader] at hphase
  | replying r writer hphase hin hsize hstream hlog => simp [hreader] at hphase
  | silent reason extra hphase hreason hout hextra hlog => simp [hreader] at hphase
  | cut reason r rest hphase hreason hin hsize hstream hlog => simp [hreader] at hphase

/-- The child writes a chunk of its response. -/
theorem childWrite {writer : FrameWriter} {n : ℕ} (hwriter : c.phase = .reply writer)
    (hpos : 0 < n) (hn : n ≤ writer.pending.length)
    (h : Exchange c input output done p unsent received) :
    Exchange { c with phase := .reply (writer.written n) } input
      (output ++ writer.pending.take n) done p unsent received := by
  cases h with
  | replied writer' hphase hsent hstream hout hlog =>
      -- a response that is out has nothing left to write
      obtain rfl : writer = writer' := by simpa [hwriter] using hphase
      rcases FrameWriter.eq_of_unsent_nil hsent with rfl | rfl
      · simp only [FrameWriter.pending, List.length_nil] at hn
        omega
      · simp only [FrameWriter.pending, List.length_nil] at hn
        omega
  | replying r writer' hphase hin hsize hstream hlog =>
      obtain rfl : writer = writer' := by simpa [hwriter] using hphase
      refine .replying r _ rfl hin hsize ?_ hlog
      rw [← hstream, ← writer.take_pending_append n]
      simp only [List.append_assoc]
  | asked reader hphase hstream hout hlog => simp [hwriter] at hphase
  | answered r hphase hin hsize hstream hlog => simp [hwriter] at hphase
  | silent reason extra hphase hreason hout hextra hlog => simp [hwriter] at hphase
  | cut reason r rest hphase hreason hin hsize hstream hlog => simp [hwriter] at hphase

/-- The child leaves its loop, wherever it is. -/
theorem childExit (h : Exchange c input output done p unsent received)
    (hgone : c.phase.gone = false) :
    Exchange { c with phase := .exited .ended } input output done p unsent received := by
  cases h with
  | replied writer hphase hsent hstream hout hlog =>
      exact .silent .ended [] rfl (by simp) hout (.inl rfl) (by simpa using hlog)
  | asked reader hphase hstream hout hlog =>
      exact .silent .ended [] rfl (by simp) hout (.inl rfl) (by simpa using hlog)
  | replying r writer hphase hin hsize hstream hlog =>
      exact .cut .ended r writer.unsent rfl (by simp) hin hsize hstream hlog
  | answered r hphase hin hsize hstream hlog =>
      exact .cut .ended r [] rfl (by simp) hin hsize (by simpa using hstream) hlog
  | silent reason extra hphase hreason hout hextra hlog => simp [hphase, ServePhase.gone] at hgone
  | cut reason r rest hphase hreason hin hsize hstream hlog => simp [hphase, ServePhase.gone] at hgone

/-- A frame that the host may send passes the child's check of its length. -/
theorem length_of_header {got rest : List UInt8} (hp : p.length ≤ limit) (hgot : got.length = 4)
    (hstream : got ++ rest = frame p) : (decodeLength got).toNat = p.length := by
  have hheader := (eq_bigEndian_of_append_eq_frame hgot hstream).1
  rw [toNat_decodeLength hgot, hheader]
  exact bigEndianValue_bigEndian_of_lt (lt_of_le_limit hp)

/-- The child handles the request for `p`: it has read the frame of `p` and nothing
else, and answers it if the response is not too large. -/
theorem childAnswer (handle : σ → List UInt8 → List UInt8 × σ) {got : List UInt8} {size : UInt32}
    (hp : p.length ≤ limit) (hgot : got.length = size.toNat)
    (hstream : (FrameReader.body size got).received ++ (input ++ unsent) = frame p)
    (hout : received ++ output = []) (hlog : c.handled = done) :
    Exchange (c.answer handle got) input output done p unsent received := by
  rw [FrameReader.received_of_complete hgot] at hstream
  obtain ⟨hpayload, hin⟩ := frame_append_inj (FrameReader.length_lt_of_complete hgot)
    (lt_of_le_limit hp) (hstream.trans (List.append_nil _).symm)
  subst hpayload
  by_cases hlarge : limit < (handle c.service got).1.length
  · exact .silent .responseTooLarge [(got, (handle c.service got).1)] (by simp [Child.answer, hlarge])
      (by simp) hout (.inr ⟨hin, by simp⟩) (by simp [Child.answer, hlog])
  · exact .replying (handle c.service got).1 (.start (handle c.service got).1)
      (by simp [Child.answer, hlarge]) hin (Nat.le_of_not_lt hlarge) (by simp [hout])
      (by simp [Child.answer, hlog])

/-- The child goes on to its next statement. -/
theorem childProceed (handle : σ → List UInt8 → List UInt8 × σ) (hp : p.length ≤ limit)
    (h : Exchange c input output done p unsent received) :
    Exchange (c.proceed handle) input output done p unsent received := by
  have horiginal := h
  cases h with
  | replied writer hphase hsent hstream hout hlog =>
      rcases FrameWriter.eq_of_unsent_nil hsent with rfl | rfl
      · simp only [Child.proceed, hphase]
        exact .replied (.body []) rfl rfl hstream hout hlog
      · simp only [Child.proceed, hphase]
        exact .asked .start rfl (by simpa using hstream) hout hlog
  | asked reader hphase hstream hout hlog =>
      cases reader with
      | length got =>
          simp only [Child.proceed, hphase]
          split
          · rename_i hgot
            have hlength := length_of_header hp hgot hstream
            rw [if_neg (by omega)]
            refine .asked _ rfl ?_ hout hlog
            rw [FrameReader.received_body_nil hgot]
            exact hstream
          · exact horiginal
      | body size got =>
          simp only [Child.proceed, hphase]
          split
          · rename_i hgot
            exact childAnswer handle hp hgot hstream hout hlog
          · exact horiginal
  | replying r writer hphase hin hsize hstream hlog =>
      rcases writer with ⟨rest, payload⟩ | rest
      · rcases rest with _ | ⟨b, rest⟩
        · simp only [Child.proceed, hphase]
          exact .replying r _ rfl hin hsize hstream hlog
        · simp only [Child.proceed, hphase]
          exact horiginal
      · rcases rest with _ | ⟨b, rest⟩
        · simp only [Child.proceed, hphase]
          exact .answered r rfl hin hsize (by simpa [FrameWriter.unsent] using hstream) hlog
        · simp only [Child.proceed, hphase]
          exact horiginal
  | answered r hphase hin hsize hstream hlog =>
      -- nothing of a next frame is there yet
      have hstay : c.proceed handle = c := by simp [Child.proceed, hphase, FrameReader.start]
      rw [hstay]
      exact horiginal
  | silent reason extra hphase hreason hout hextra hlog =>
      simp only [Child.proceed, hphase]
      exact horiginal
  | cut reason r rest hphase hreason hin hsize hstream hlog =>
      simp only [Child.proceed, hphase]
      exact horiginal

/-- What was handled beyond the requests answered before is at most this one. -/
theorem handled_eq (h : Exchange c input output done p unsent received) :
    ∃ extra, extra.length ≤ 1 ∧ c.handled = done ++ extra := by
  cases h with
  | replied writer hphase hsent hstream hout hlog => exact ⟨[], by simp, by simpa using hlog⟩
  | asked reader hphase hstream hout hlog => exact ⟨[], by simp, by simpa using hlog⟩
  | replying r writer hphase hin hsize hstream hlog => exact ⟨[(p, r)], by simp, hlog⟩
  | answered r hphase hin hsize hstream hlog => exact ⟨[(p, r)], by simp, hlog⟩
  | silent reason extra hphase hreason hout hextra hlog =>
      rcases hextra with rfl | ⟨-, hextra⟩
      · exact ⟨[], by simp, hlog⟩
      · exact ⟨extra, hextra, hlog⟩
  | cut reason r rest hphase hreason hin hsize hstream hlog => exact ⟨[(p, r)], by simp, hlog⟩

/-- Before the first byte is sent, the child has handled nothing of the request. -/
theorem handled_of_unsent (h : Exchange c input output done p (frame p) received) :
    c.handled = done := by
  have hne : input ++ frame p ≠ [] := by
    intro hnil
    exact frame_ne_nil p (List.append_eq_nil_iff.1 hnil).2
  cases h with
  | replied writer hphase hsent hstream hout hlog => exact hlog
  | asked reader hphase hstream hout hlog => exact hlog
  | replying r writer hphase hin hsize hstream hlog => exact absurd hin hne
  | answered r hphase hin hsize hstream hlog => exact absurd hin hne
  | silent reason extra hphase hreason hout hextra hlog =>
      rcases hextra with rfl | ⟨hin, -⟩
      · simpa using hlog
      · exact absurd hin hne
  | cut reason r rest hphase hreason hin hsize hstream hlog => exact absurd hin hne

/-- The child does not leave its loop over the length of the request's frame. -/
theorem phase_ne_frameTooLarge (h : Exchange c input output done p unsent received) :
    c.phase ≠ .exited .frameTooLarge := by
  cases h with
  | replied writer hphase hsent hstream hout hlog => simp [hphase]
  | asked reader hphase hstream hout hlog => simp [hphase]
  | replying r writer hphase hin hsize hstream hlog => simp [hphase]
  | answered r hphase hin hsize hstream hlog => simp [hphase]
  | silent reason extra hphase hreason hout hextra hlog => simpa [hphase] using hreason
  | cut reason r rest hphase hreason hin hsize hstream hlog => simpa [hphase] using hreason

/-- The host has read one whole frame: it is the frame of the response to `p`, the
child has handled `p` and nothing else since the request began, and both streams
are at a boundary. -/
theorem closed {got : List UInt8} (hgot : got.length < 256 ^ 4)
    (h : Exchange c input output done p [] (frame got)) :
    Boundary c input output (done ++ [(p, got)]) := by
  -- the received frame is not empty, so the child has answered
  have hne : ∀ xs, frame got ++ xs ≠ [] := by
    intro xs hnil
    exact frame_ne_nil got (List.append_eq_nil_iff.1 hnil).1
  cases h with
  | replied writer hphase hsent hstream hout hlog => exact absurd hout (hne output)
  | asked reader hphase hstream hout hlog => exact absurd hout (hne output)
  | silent reason extra hphase hreason hout hextra hlog => exact absurd hout (hne output)
  | replying r writer hphase hin hsize hstream hlog =>
      rw [List.append_assoc, ← List.append_nil (frame r)] at hstream
      obtain ⟨rfl, hrest⟩ := frame_append_inj hgot (lt_of_le_limit hsize) hstream
      obtain ⟨hout, hunsent⟩ := List.append_eq_nil_iff.1 hrest
      exact .replied writer hphase hunsent (List.append_eq_nil_iff.1 hin).1 hout hlog
  | answered r hphase hin hsize hstream hlog =>
      rw [← List.append_nil (frame r)] at hstream
      obtain ⟨rfl, hout⟩ := frame_append_inj hgot (lt_of_le_limit hsize) hstream
      exact .ready hphase (List.append_eq_nil_iff.1 hin).1 hout hlog
  | cut reason r rest hphase hreason hin hsize hstream hlog =>
      rw [List.append_assoc, ← List.append_nil (frame r)] at hstream
      obtain ⟨rfl, hrest⟩ := frame_append_inj hgot (lt_of_le_limit hsize) hstream
      exact .gone reason hphase hreason (List.append_eq_nil_iff.1 hrest).1 hlog

end Exchange

end Lktrs.Protocol
