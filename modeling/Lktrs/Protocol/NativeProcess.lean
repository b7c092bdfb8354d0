import Mathlib.Logic.Function.Basic
import Lktrs.Foundation.Frames
import Lktrs.Foundation.Runs
import Lktrs.Foundation.Outcome

/-!
# The native process: framed requests over two pipes

`NativeProcess::request` (native_process.cpp) on the host and `serve`
(cmd/lktrs-native/main.go) in the child, as one state machine. Any number of
threads call `request`; the mutex, the two pipes and the child are shared. Every
event is one thing that one party does: a thread takes the mutex and checks its
arguments, a `write` or `read` system call moves some bytes, the program goes on
to its next statement, a call fails, `stop` finishes, or the child moves. A list
of events is one interleaving; an event that is not enabled changes nothing.

The clock is in nanoseconds and enters with the event, as the system's clock
does with `Clock::now`. What the child computes is a parameter `handle`, the
`Service.Handle` it calls with its state. `handled` and `returned` record what
the child has handled and what requests have returned; no transition reads them.
-/

set_option autoImplicit false

namespace Lktrs.Protocol

open Lktrs.Foundation

universe u

/-- `NativeProcess::max_frame_bytes`. -/
def maxFrameBytes : ℕ := 16 * 1024 * 1024

/-- The child's `limit`. -/
def limit : ℕ := 16 <<< 20

/-! ## The child -/

/-- Why `serve` is no longer running. `ended` is any end that the bytes of a frame
do not decide: end of input, a failed read or write, a signal. -/
inductive ExitReason where
  | frameTooLarge
  | responseTooLarge
  | ended
deriving Repr, DecidableEq

/-- Where `serve` is: reading a frame, writing one, or gone. -/
inductive ServePhase where
  | receive (reader : FrameReader)
  | reply (writer : FrameWriter)
  | exited (reason : ExitReason)
deriving Repr, DecidableEq

/-- The child: the service's state, the position in the loop, and the payloads
handled so far with their responses. -/
structure Child (σ : Type u) where
  service : σ
  phase : ServePhase
  handled : List (List UInt8 × List UInt8)

namespace Child

variable {σ : Type u}

/-- The child as it is spawned. -/
def spawn (service : σ) : Child σ := ⟨service, .receive .start, []⟩

/-- One call of `Service.Handle` with the check of the response's size. -/
def answer (handle : σ → List UInt8 → List UInt8 × σ) (c : Child σ) (raw : List UInt8) : Child σ :=
  let response := (handle c.service raw).1
  { service := (handle c.service raw).2
    phase := if limit < response.length then .exited .responseTooLarge
      else .reply (.start response)
    handled := c.handled ++ [(raw, response)] }

/-- The next statement of `serve`, once the current read or write is complete. -/
def proceed (handle : σ → List UInt8 → List UInt8 × σ) (c : Child σ) : Child σ :=
  match c.phase with
  | .receive (.length got) =>
      if got.length = 4 then
        if limit < (decodeLength got).toNat then { c with phase := .exited .frameTooLarge }
        else { c with phase := .receive (.body (decodeLength got) []) }
      else c
  | .receive (.body size got) => if got.length = size.toNat then c.answer handle got else c
  | .reply (.length [] payload) => { c with phase := .reply (.body payload) }
  | .reply (.body []) => { c with phase := .receive .start }
  | _ => c

end Child

/-- What the child can do on its own. -/
inductive ServeEvent where
  | read (n : ℕ)
  | write (n : ℕ)
  | proceed
  | exit
deriving Repr, DecidableEq

/-! ## The host -/

/-- What `request` throws. -/
inductive RequestError where
  | requestTooLarge
  | invalidTimeout
  | notRunning
  | timedOut
  | pollFailed (code : ℕ)
  | invalidPipe
  | signalsFailed (code : ℕ)
  | pendingFailed (code : ℕ)
  | writeFailed (code : ℕ)
  | noProgress
  | readFailed (code : ℕ)
  | endOfFile
  | responseTooLarge
  | outOfMemory
deriving Repr, DecidableEq

/-- The text of an exception (for a `system_error`, the operation it names). -/
def RequestError.what : RequestError → String
  | .requestTooLarge => "native process request exceeds 16 MiB frame limit"
  | .invalidTimeout => "native process timeout must be positive and representable"
  | .notRunning => "native process is no longer running"
  | .timedOut => "native process request timed out"
  | .pollFailed _ => "native process poll"
  | .invalidPipe => "native process pipe is invalid"
  | .signalsFailed _ => "native process block SIGPIPE"
  | .pendingFailed _ => "native process pending signals"
  | .writeFailed _ => "native process write"
  | .noProgress => "native process write made no progress"
  | .readFailed _ => "native process read"
  | .endOfFile => "native process EOF before complete response"
  | .responseTooLarge => "native process response exceeds 16 MiB frame limit"
  | .outOfMemory => "std::bad_alloc"

/-- Where a thread is inside the `try` block of `request`: in one of the two calls
of `write_all`, in one of the two calls of `read_all`, or in `stop` on the way out
with the exception. -/
inductive RequestPhase where
  | send (writer : FrameWriter)
  | receive (reader : FrameReader)
  | stopping (error : RequestError)
deriving Repr, DecidableEq

/-- What a thread is doing: nothing yet, waiting for the mutex, inside the request
with the mutex held, or back from it. -/
inductive Call where
  | idle
  | waiting (payload : List UInt8) (timeout : ℤ)
  | inRequest (payload : List UInt8) (phase : RequestPhase)
  | finished (payload : List UInt8) (result : Except RequestError (List UInt8))

/-- The host with its child and the bytes in the two pipes. `running` is
`pid > 0`. -/
structure Host (σ : Type u) where
  calls : ℕ → Call
  holder : Option ℕ
  running : Bool
  input : List UInt8
  output : List UInt8
  child : Child σ
  returned : List (ℕ × List UInt8 × List UInt8)

/-- The largest timeout in milliseconds that the clock can represent from `now`:
`Clock::time_point::max() - now` in a signed 64-bit count of nanoseconds. -/
def longestTimeout (now : ℕ) : ℤ := (2 ^ 63 - 1 - (now : ℤ)) / 10 ^ 6

/-- The checks of `request` before its `try` block, in the source's order. -/
def checkRequest (running : Bool) (payload : List UInt8) (timeout : ℤ) (now : ℕ) :
    Except RequestError Unit :=
  if maxFrameBytes < payload.length then .error .requestTooLarge
  else if timeout ≤ 0 ∨ longestTimeout now < timeout then .error .invalidTimeout
  else if running = false then .error .notRunning
  else .ok ()

/-- The failures of a system call, by the phase that makes it: `await_ready` fails
in both directions, a read ends only when the child is gone and the pipe is empty,
and the response buffer is allocated once its length is known. -/
def RequestPhase.canFail (childGone : Bool) (output : List UInt8) : RequestPhase → RequestError → Bool
  | .send _, .timedOut | .send _, .pollFailed _ | .send _, .invalidPipe => true
  | .send _, .signalsFailed _ | .send _, .pendingFailed _ => true
  | .send _, .writeFailed _ | .send _, .noProgress => true
  | .receive _, .timedOut | .receive _, .pollFailed _ | .receive _, .invalidPipe => true
  | .receive _, .readFailed _ => true
  | .receive _, .endOfFile => childGone && output.isEmpty
  | .receive (.body _ []), .outOfMemory => true
  | _, _ => false

/-- Whether the child has left its loop. -/
def ServePhase.gone : ServePhase → Bool
  | .exited _ => true
  | _ => false

/-- One thing that one party does. -/
inductive Event where
  | call (t : ℕ) (payload : List UInt8) (timeout : ℤ)
  | enter (t now : ℕ)
  | write (t n : ℕ)
  | read (t n : ℕ)
  | proceed (t : ℕ)
  | fail (t : ℕ) (error : RequestError)
  | stopped (t : ℕ)
  | serve (e : ServeEvent)
deriving Repr, DecidableEq

namespace Host

variable {σ : Type u}

/-- The host after its constructor has spawned the child. -/
def start (service : σ) : Host σ :=
  ⟨fun _ => .idle, none, true, [], [], .spawn service, []⟩

/-- One thread moves. -/
def setCall (s : Host σ) (t : ℕ) (c : Call) : Host σ :=
  { s with calls := Function.update s.calls t c }

/-- `request` leaves its `try` block with the response. -/
def giveBack (s : Host σ) (t : ℕ) (payload response : List UInt8) : Host σ :=
  { s.setCall t (.finished payload (.ok response)) with
    holder := none
    returned := s.returned ++ [(t, payload, response)] }

/-- The end of `stop`: the descriptors are closed, the child is killed and reaped,
and the exception leaves `request`. -/
def finishStop (s : Host σ) (t : ℕ) (payload : List UInt8) (error : RequestError) : Host σ :=
  { s.setCall t (.finished payload (.error error)) with
    holder := none
    running := false
    input := []
    output := []
    child := { s.child with phase := .exited .ended } }

/-- The next statement of `request`, once the current `write_all` or `read_all` is
complete. -/
def proceed (s : Host σ) (t : ℕ) : Host σ :=
  match s.calls t with
  | .inRequest payload (.send (.length [] body)) =>
      s.setCall t (.inRequest payload (.send (.body body)))
  | .inRequest payload (.send (.body [])) => s.setCall t (.inRequest payload (.receive .start))
  | .inRequest payload (.receive (.length got)) =>
      if got.length = 4 then
        if maxFrameBytes < (decodeLength got).toNat then
          s.setCall t (.inRequest payload (.stopping .responseTooLarge))
        else s.setCall t (.inRequest payload (.receive (.body (decodeLength got) [])))
      else s
  | .inRequest payload (.receive (.body size got)) =>
      if got.length = size.toNat then s.giveBack t payload got else s
  | _ => s

/-- The child's moves. A read takes bytes that are in the pipe, at most as many as
it asked for; a write puts some of its bytes there. -/
def serve (handle : σ → List UInt8 → List UInt8 × σ) (s : Host σ) : ServeEvent → Host σ
  | .read n =>
      match s.child.phase with
      | .receive r =>
          if 0 < n ∧ n ≤ s.input.length ∧ n ≤ r.wanted then
            { s with
              child := { s.child with phase := .receive (r.accept (s.input.take n)) }
              input := s.input.drop n }
          else s
      | _ => s
  | .write n =>
      match s.child.phase with
      | .reply w =>
          if 0 < n ∧ n ≤ w.pending.length then
            { s with
              child := { s.child with phase := .reply (w.written n) }
              output := s.output ++ w.pending.take n }
          else s
      | _ => s
  | .proceed => { s with child := s.child.proceed handle }
  | .exit =>
      if s.child.phase.gone then s
      else { s with child := { s.child with phase := .exited .ended } }

/-- One event. -/
def step (handle : σ → List UInt8 → List UInt8 × σ) (s : Host σ) : Event → Host σ
  | .call t payload timeout =>
      match s.calls t with
      | .idle | .finished _ _ => s.setCall t (.waiting payload timeout)
      | _ => s
  | .enter t now =>
      -- the lock is taken before anything of the request is checked
      match s.calls t, s.holder with
      | .waiting payload timeout, none =>
          match checkRequest s.running payload timeout now with
          | .error e => s.setCall t (.finished payload (.error e))
          | .ok _ =>
              { s.setCall t (.inRequest payload (.send (.start payload))) with holder := some t }
      | _, _ => s
  | .write t n =>
      match s.calls t with
      | .inRequest payload (.send w) =>
          -- a write may take any number of the bytes it was given
          if 0 < n ∧ n ≤ w.pending.length then
            { s.setCall t (.inRequest payload (.send (w.written n))) with
              input := s.input ++ w.pending.take n }
          else s
      | _ => s
  | .read t n =>
      match s.calls t with
      | .inRequest payload (.receive r) =>
          if 0 < n ∧ n ≤ s.output.length ∧ n ≤ r.wanted then
            { s.setCall t (.inRequest payload (.receive (r.accept (s.output.take n)))) with
              output := s.output.drop n }
          else s
      | _ => s
  | .proceed t => s.proceed t
  | .fail t error =>
      match s.calls t with
      | .inRequest payload phase =>
          -- every failure leads to a stop of the child
          if phase.canFail s.child.phase.gone s.output error then
            s.setCall t (.inRequest payload (.stopping error))
          else s
      | _ => s
  | .stopped t =>
      match s.calls t with
      | .inRequest payload (.stopping error) => s.finishStop t payload error
      | _ => s
  | .serve e => s.serve handle e

end Host

end Lktrs.Protocol
