import Lktrs.Protocol.NativeRuns

/-!
# What callers of the native process can rely on

A request that fits the limits can always be carried out while the child runs
(`Host.request_completes`): the frame of the payload goes out, the child reads it
and answers, and the frame of the response comes back, whatever the process did
before. `framed_requests_never_cross` puts this together with the invariant of all
interleavings.
-/

set_option autoImplicit false

namespace Lktrs.Protocol

open Lktrs.Foundation

universe u

variable {σ : Type u} (handle : σ → List UInt8 → List UInt8 × σ)

namespace Host

/-- Where a request is: the thread's phase, the child's phase and state, and the
bytes in the pipes. -/
structure At (t : ℕ) (p : List UInt8) (phase : RequestPhase) (serving : ServePhase)
    (service : σ) (input output : List UInt8) (s : Host σ) : Prop where
  call : s.calls t = .inRequest p phase
  serving : s.child.phase = serving
  service : s.child.service = service
  input : s.input = input
  output : s.output = output

section Stages

variable {s : Host σ} {t : ℕ} {p input output chunk rest body : List UInt8} {phase : RequestPhase}
  {serving : ServePhase} {service : σ}

/-- One `write` takes all that is pending. With nothing pending there is no call. -/
theorem At.write {w : FrameWriter} (h : At t p (.send w) serving service input output s) :
    At t p (.send (w.written w.pending.length)) serving service (input ++ w.pending) output
      (s.step handle (.write t w.pending.length)) := by
  simp only [step, h.call]
  split
  · exact ⟨by simp [setCall], h.serving, h.service, by simp [h.input], h.output⟩
  · rename_i hzero
    have hnil : w.pending = [] := by
      apply List.eq_nil_of_length_eq_zero
      omega
    rw [hnil, List.append_nil, List.length_nil, FrameWriter.written_zero]
    exact h

/-- One `read` of the child takes a chunk that it asked for. -/
theorem At.childRead {r : FrameReader} (hchunk : chunk.length ≤ r.wanted)
    (h : At t p phase (.receive r) service (chunk ++ input) output s) :
    At t p phase (.receive (r.accept chunk)) service input output
      (s.step handle (.serve (.read chunk.length))) := by
  simp only [step, serve, h.serving]
  split
  · exact ⟨h.call, by simp [h.input], h.service, by simp [h.input], h.output⟩
  · rename_i hzero
    have hnil : chunk = [] := by
      apply List.eq_nil_of_length_eq_zero
      simp only [h.input, List.length_append] at hzero
      omega
    subst hnil
    rw [FrameReader.accept_nil]
    exact h

/-- One `write` of the child puts out all that is pending. -/
theorem At.childWrite {w : FrameWriter} (h : At t p phase (.reply w) service input output s) :
    At t p phase (.reply (w.written w.pending.length)) service input (output ++ w.pending)
      (s.step handle (.serve (.write w.pending.length))) := by
  simp only [step, serve, h.serving]
  split
  · exact ⟨h.call, rfl, h.service, h.input, by simp [h.output]⟩
  · rename_i hzero
    have hnil : w.pending = [] := by
      apply List.eq_nil_of_length_eq_zero
      omega
    rw [hnil, List.append_nil, List.length_nil, FrameWriter.written_zero]
    exact h

/-- One `read` of the host takes a chunk that it asked for. -/
theorem At.read {r : FrameReader} (hchunk : chunk.length ≤ r.wanted)
    (h : At t p (.receive r) serving service input (chunk ++ output) s) :
    At t p (.receive (r.accept chunk)) serving service input output
      (s.step handle (.read t chunk.length)) := by
  simp only [step, h.call]
  split
  · exact ⟨by simp [setCall, h.output], h.serving, h.service, h.input, by simp [h.output]⟩
  · rename_i hzero
    have hnil : chunk = [] := by
      apply List.eq_nil_of_length_eq_zero
      simp only [h.output, List.length_append] at hzero
      omega
    subst hnil
    rw [FrameReader.accept_nil]
    exact h

/-- The host goes on to its next statement. -/
theorem At.advance {phase' : RequestPhase} (h : At t p phase serving service input output s)
    (hstep : s.proceed t = s.setCall t (.inRequest p phase')) :
    At t p phase' serving service input output (s.step handle (.proceed t)) := by
  simp only [step, hstep]
  exact ⟨by simp [setCall], h.serving, h.service, h.input, h.output⟩

/-- The child goes on to its next statement. -/
theorem At.childAdvance {c : Child σ} (h : At t p phase serving service input output s)
    (hstep : s.child.proceed handle = c) :
    At t p phase c.phase c.service input output (s.step handle (.serve .proceed)) := by
  simp only [step, serve, hstep]
  exact ⟨h.call, rfl, rfl, h.input, h.output⟩

/-- The host writes a part of a frame and goes on. -/
theorem leads_send {w : FrameWriter} {phase' : RequestPhase}
    (hnext : ∀ s : Host σ, s.calls t = .inRequest p (.send (w.written w.pending.length)) →
      s.proceed t = s.setCall t (.inRequest p phase')) :
    Leads (step handle) (At t p (.send w) serving service input output)
      (At t p phase' serving service (input ++ w.pending) output) := by
  have hwrite : Leads (step handle) (At t p (.send w) serving service input output)
      (At t p (.send (w.written w.pending.length)) serving service (input ++ w.pending) output) := by
    apply Leads.of_step (.write t w.pending.length)
    intro s h
    exact h.write handle
  apply hwrite.trans
  apply Leads.of_step (.proceed t)
  intro s h
  exact h.advance handle (hnext s h.call)

/-- The host's length goes out. -/
theorem leads_sendLength :
    Leads (step handle) (At t p (.send (.length rest body)) serving service input output)
      (At t p (.send (.body body)) serving service (input ++ rest) output) := by
  apply leads_send
  intro s hcall
  simp only [FrameWriter.written, FrameWriter.pending, List.drop_length] at hcall
  simp only [proceed, hcall]

/-- The host's payload goes out. -/
theorem leads_sendBody :
    Leads (step handle) (At t p (.send (.body rest)) serving service input output)
      (At t p (.receive .start) serving service (input ++ rest) output) := by
  apply leads_send
  intro s hcall
  simp only [FrameWriter.written, FrameWriter.pending, List.drop_length] at hcall
  simp only [proceed, hcall]

/-- The child reads a length within its limit. -/
theorem leads_serveLength (hrest : rest.length = 4) (hlimit : (decodeLength rest).toNat ≤ limit) :
    Leads (step handle) (At t p phase (.receive .start) service (rest ++ input) output)
      (At t p phase (.receive (.body (decodeLength rest) [])) service input output) := by
  have hread : Leads (step handle)
      (At t p phase (.receive .start) service (rest ++ input) output)
      (At t p phase (.receive (.length rest)) service input output) := by
    apply Leads.of_step (.serve (.read rest.length))
    intro s h
    exact h.childRead handle (by simp [FrameReader.wanted, FrameReader.start, hrest])
  apply hread.trans
  apply Leads.of_step (.serve .proceed)
  intro s h
  have hnext : s.child.proceed handle =
      { s.child with phase := .receive (.body (decodeLength rest) []) } := by
    simp only [Child.proceed, h.serving, hrest, if_true]
    exact if_neg (Nat.not_lt.2 hlimit)
  have hmoved := h.childAdvance handle hnext
  rwa [h.service] at hmoved

/-- The child reads the payload and handles it. -/
theorem leads_answer {size : UInt32} (hbody : body.length = size.toNat)
    (hlimit : (handle service body).1.length ≤ limit) :
    Leads (step handle) (At t p phase (.receive (.body size [])) service body output)
      (At t p phase (.reply (.start (handle service body).1)) (handle service body).2 []
        output) := by
  have hread : Leads (step handle)
      (At t p phase (.receive (.body size [])) service body output)
      (At t p phase (.receive (.body size body)) service [] output) := by
    apply Leads.of_step (.serve (.read body.length))
    intro s h
    rw [← List.append_nil body] at h
    exact h.childRead handle (by simp [FrameReader.wanted, hbody])
  apply hread.trans
  apply Leads.of_step (.serve .proceed)
  intro s h
  have hnext : s.child.proceed handle = s.child.answer handle body := by
    simp only [Child.proceed, h.serving, hbody, if_true]
  have hmoved := h.childAdvance handle hnext
  simpa [Child.answer, h.service, Nat.not_lt.2 hlimit] using hmoved

/-- The child's length goes out. -/
theorem leads_replyLength :
    Leads (step handle) (At t p phase (.reply (.length rest body)) service input output)
      (At t p phase (.reply (.body body)) service input (output ++ rest)) := by
  have hwrite : Leads (step handle)
      (At t p phase (.reply (.length rest body)) service input output)
      (At t p phase (.reply (.length [] body)) service input (output ++ rest)) := by
    apply Leads.of_step (.serve (.write rest.length))
    intro s h
    simpa [FrameWriter.pending, FrameWriter.written] using h.childWrite handle
  apply hwrite.trans
  apply Leads.of_step (.serve .proceed)
  intro s h
  have hnext : s.child.proceed handle = { s.child with phase := .reply (.body body) } := by
    simp only [Child.proceed, h.serving]
  have hmoved := h.childAdvance handle hnext
  rwa [h.service] at hmoved

/-- The child's payload goes out. -/
theorem leads_replyBody :
    Leads (step handle) (At t p phase (.reply (.body rest)) service input output)
      (At t p phase (.reply (.body [])) service input (output ++ rest)) := by
  apply Leads.of_step (.serve (.write rest.length))
  intro s h
  simpa [FrameWriter.pending, FrameWriter.written] using h.childWrite handle

/-- The host reads a length within its limit. -/
theorem leads_receiveLength (hrest : rest.length = 4)
    (hlimit : (decodeLength rest).toNat ≤ maxFrameBytes) :
    Leads (step handle) (At t p (.receive .start) serving service input (rest ++ output))
      (At t p (.receive (.body (decodeLength rest) [])) serving service input output) := by
  have hread : Leads (step handle)
      (At t p (.receive .start) serving service input (rest ++ output))
      (At t p (.receive (.length rest)) serving service input output) := by
    apply Leads.of_step (.read t rest.length)
    intro s h
    exact h.read handle (by simp [FrameReader.wanted, FrameReader.start, hrest])
  apply hread.trans
  apply Leads.of_step (.proceed t)
  intro s h
  apply h.advance handle
  simp only [proceed, h.call, hrest, if_true]
  exact if_neg (Nat.not_lt.2 hlimit)

/-- The host reads the response and returns it. -/
theorem leads_giveBack {size : UInt32} (hbody : body.length = size.toNat) :
    Leads (step handle)
      (At t p (.receive (.body size [])) serving service input body)
      (fun s => s.calls t = .finished p (.ok body)) := by
  have hread : Leads (step handle)
      (At t p (.receive (.body size [])) serving service input body)
      (At t p (.receive (.body size body)) serving service input []) := by
    apply Leads.of_step (.read t body.length)
    intro s h
    rw [← List.append_nil body] at h
    exact h.read handle (by simp [FrameReader.wanted, hbody])
  apply hread.trans
  apply Leads.of_step (.proceed t)
  intro s h
  simp only [step, proceed, h.call, hbody, if_true]
  simp [giveBack, setCall]

end Stages

/-- A child that runs comes to the top of its loop on its own between requests. -/
theorem leads_ready {t : ℕ} {p : List UInt8} {timeout : ℤ} {service : σ} :
    Leads (step handle)
      (fun s => Boundary s.child s.input s.output s.answers ∧ s.child.phase.gone = false ∧
        s.calls t = .waiting p timeout ∧ s.holder = none ∧ s.running = true ∧
        s.child.service = service)
      (fun s => s.calls t = .waiting p timeout ∧ s.holder = none ∧ s.running = true ∧
        s.child.phase = .receive .start ∧ s.child.service = service ∧ s.input = [] ∧
        s.output = []) := by
  rintro s ⟨hboundary, hgone, hcall, hholder, hrunning, hservice⟩
  cases hboundary with
  | ready hphase hin hout hlog =>
      exact ⟨[], hcall, hholder, hrunning, hphase, hservice, hin, hout⟩
  | replied writer hphase hsent hin hout hlog =>
      refine ⟨[.serve .proceed, .serve .proceed], ?_⟩
      have hready : ((s.child.proceed handle).proceed handle).phase = .receive .start ∧
          ((s.child.proceed handle).proceed handle).service = service := by
        rcases FrameWriter.eq_of_unsent_nil hsent with rfl | rfl
        · simp [Child.proceed, hphase, hservice]
        · simp [Child.proceed, hphase, hservice, FrameReader.start]
      exact ⟨hcall, hholder, hrunning, hready.1, hready.2, hin, hout⟩
  | gone reason hphase hreason hout hlog => simp [hphase, ServePhase.gone] at hgone

/-- A request within the limits enters its `try` block. -/
theorem leads_enter {t now : ℕ} {p : List UInt8} {timeout : ℤ} {service : σ}
    (hcheck : checkRequest true p timeout now = .ok ()) :
    Leads (step handle)
      (fun s => s.calls t = .waiting p timeout ∧ s.holder = none ∧ s.running = true ∧
        s.child.phase = .receive .start ∧ s.child.service = service ∧ s.input = [] ∧
        s.output = [])
      (At t p (.send (.start p)) (.receive .start) service [] []) := by
  apply Leads.of_step (.enter t now)
  rintro s ⟨hcall, hholder, hrunning, hphase, hservice, hin, hout⟩
  simp only [step, hcall, hholder, hrunning, hcheck]
  exact ⟨by simp [setCall], hphase, hservice, hin, hout⟩

/-- While the child runs and no request is in flight, a request within the limits can
be carried out, and it returns what the child computes for it. -/
theorem request_completes {t now : ℕ} {p : List UInt8} {timeout : ℤ} {service : σ}
    (hcheck : checkRequest true p timeout now = .ok ())
    (hlimit : (handle service p).1.length ≤ limit) :
    Leads (step handle)
      (fun s => Boundary s.child s.input s.output s.answers ∧ s.child.phase.gone = false ∧
        s.calls t = .waiting p timeout ∧ s.holder = none ∧ s.running = true ∧
        s.child.service = service)
      (fun s => s.calls t = .finished p (.ok (handle service p).1)) := by
  have hp : p.length ≤ limit := (checkRequest_eq_ok.1 hcheck).1
  have hplength : (decodeLength (bigEndian 4 p.length)).toNat = p.length :=
    Exchange.length_of_header hp (length_bigEndian 4 _) rfl
  obtain ⟨r, hr⟩ : ∃ r, r = (handle service p).1 := ⟨_, rfl⟩
  rw [← hr] at hlimit ⊢
  have hrlength : (decodeLength (bigEndian 4 r.length)).toNat = r.length :=
    Exchange.length_of_header hlimit (length_bigEndian 4 _) rfl
  -- the frame of the request, its answer, the frame of the answer, and its return
  have hask : Leads (step handle)
      (At t p (.send (.start p)) (.receive .start) service [] [])
      (At t p (.receive .start) (.receive .start) service (bigEndian 4 p.length ++ p) []) :=
    (leads_sendLength handle).trans (leads_sendBody handle)
  have hserve : Leads (step handle)
      (At t p (.receive .start) (.receive .start) service (bigEndian 4 p.length ++ p) [])
      (At t p (.receive .start) (.reply (.start r)) (handle service p).2 [] []) := by
    apply (leads_serveLength handle (length_bigEndian 4 _) (hplength.le.trans hp)).trans
    subst hr
    exact leads_answer handle hplength.symm hlimit
  have hreply : Leads (step handle)
      (At t p (.receive .start) (.reply (.start r)) (handle service p).2 [] [])
      (At t p (.receive .start) (.reply (.body [])) (handle service p).2 []
        (bigEndian 4 r.length ++ r)) :=
    (leads_replyLength handle).trans (leads_replyBody handle)
  have hreturn : Leads (step handle)
      (At t p (.receive .start) (.reply (.body [])) (handle service p).2 []
        (bigEndian 4 r.length ++ r))
      (fun s => s.calls t = .finished p (.ok r)) := by
    apply (leads_receiveLength handle (length_bigEndian 4 _) (hrlength.le.trans hlimit)).trans
    exact leads_giveBack handle hrlength.symm
  exact (leads_ready handle).trans <| (leads_enter handle hcheck).trans <| hask.trans <|
    hserve.trans <| hreply.trans hreturn

/-! ## The contract -/

variable {handle}

/-- While a thread is inside its request, no other request returns. -/
theorem Coherent.answers_of_inside {service : σ} {s s' : Host σ} (hs : Coherent handle service s)
    (hmove : Move handle s s') {t : ℕ} {p q : List UInt8} {phase phase' : RequestPhase}
    (hcall : s.calls t = .inRequest p phase) (hcall' : s'.calls t = .inRequest q phase') :
    s'.returned = s.returned := by
  cases hmove with
  | giveBack t' p' size got hinside hgot =>
      -- the thread that returns is the holder, so it is `t`, which did not return
      have hholder := hs.alone t' p' _ hinside
      rw [hs.alone t p phase hcall] at hholder
      obtain rfl : t = t' := Option.some.inj hholder
      simp [giveBack, setCall] at hcall'
  | stay => rfl
  | call t' p' timeout h => rfl
  | reject t' now p' timeout e h hcheck => rfl
  | enter t' now p' timeout h hholder hcheck => rfl
  | write t' n p' w h => rfl
  | read t' n p' r h => rfl
  | advance t' p' phase phase' h hmatches => rfl
  | stop t' p' e h => rfl
  | serve c input output h => rfl

/-- The same along a run that stays inside the request. -/
theorem Coherent.returned_of_inside {service : σ} {s : Host σ} (hs : Coherent handle service s)
    {t : ℕ} {p : List UInt8} (events : List Event)
    (hinside : ∀ es, es <+: events → ∃ phase, (run (step handle) s es).calls t = .inRequest p phase) :
    (run (step handle) s events).returned = s.returned := by
  induction events generalizing s with
  | nil => rfl
  | cons e es ih =>
      obtain ⟨phase, hcall⟩ := hinside [] List.nil_prefix
      obtain ⟨phase', hcall'⟩ := hinside [e] (by simp)
      have hstep := hs.answers_of_inside (s.step_move e) hcall hcall'
      rw [run_cons, ← hstep]
      apply ih (hs.move (s.step_move e))
      intro es' hes'
      exact hinside (e :: es') (List.cons_prefix_cons.2 ⟨rfl, hes'⟩)

/-- A request that returns: since it entered its `try` block the child has handled its
payload and nothing else, and the response is the child's. -/
theorem Coherent.returns {service : σ} {s : Host σ} (hs : Coherent handle service s) {t : ℕ}
    {p q r : List UInt8} {events : List Event} {e : Event}
    (hstart : s.calls t = .inRequest p (.send (.start p)))
    (hinside : ∀ es, es <+: events → ∃ phase, (run (step handle) s es).calls t = .inRequest p phase)
    (hreturn : ((run (step handle) s events).step handle e).calls t = .finished q (.ok r)) :
    q = p ∧ ((run (step handle) s events).step handle e).returned = s.returned ++ [(t, p, r)] ∧
      ((run (step handle) s events).step handle e).child.handled = s.child.handled ++ [(p, r)] := by
  have hanswers := hs.returned_of_inside events hinside
  obtain ⟨phase, hcall⟩ := hinside events (List.prefix_refl _)
  have hlog : s.child.handled = s.answers := by
    obtain ⟨-, -, -, unsent, received, ⟨rfl, rfl⟩, hexchange⟩ := hs.busy hstart
    exact hexchange.handled_of_unsent
  obtain ⟨s', hs'⟩ : ∃ s', s' = run (step handle) s events := ⟨_, rfl⟩
  have hcoherent : Coherent handle service s' := by
    rw [hs']
    exact run_invariant _ (fun s e h => h.move (s.step_move e)) hs events
  rw [← hs'] at hanswers hcall hreturn ⊢
  have hmove : Move handle s' (s'.step handle e) := s'.step_move e
  have hnext := hcoherent.move hmove
  rcases hmove.left_request hcall hreturn with ⟨r', hr', hq, hgave⟩ | ⟨error, herror, -, -⟩
  · obtain rfl : r = r' := by simpa using hr'
    refine ⟨hq, ?_, ?_⟩
    · simp [hgave, giveBack, hanswers]
    · -- after the return nobody holds the mutex and the streams are at a boundary
      rw [hlog, answers, ← hanswers]
      have hlink := hnext.link
      rw [hgave] at hlink ⊢
      cases hlink with
      | idle hholder hrunning hboundary =>
          rw [answers_giveBack] at hboundary
          exact hboundary.handled_eq
      | busy t' p' phase' unsent received hholder hcall' hrunning hsize hphase h =>
          simp [giveBack] at hholder
      | stopped extra hholder hrunning hgone hextra hlog' =>
          have hrunning' := (hcoherent.busy hcall).2.1
          simp [giveBack, setCall, hrunning'] at hrunning
  · simp at herror

/-- What callers can rely on in a state of a run. -/
structure Separated (handle : σ → List UInt8 → List UInt8 × σ) (service : σ) (s : Host σ) :
    Prop where
  /-- The log is the child's: every entry is a payload with the response that the
  service gave for it. -/
  served : Served handle service s.child.handled s.child.service
  /-- The child has handled what was returned, in the order of the returns, and at
  most one payload more. -/
  paired : ∃ extra, extra.length ≤ 1 ∧ s.child.handled = s.answers ++ extra
  /-- What a thread got back is recorded. -/
  recorded : ∀ t p r, s.calls t = .finished p (.ok r) → (t, p, r) ∈ s.returned
  /-- Between the start of a request and its return of `r`, the child handles its
  payload, once and nothing else, and answers `r`. -/
  returns : ∀ (t : ℕ) (p q r : List UInt8) (events : List Event) (e : Event),
    s.calls t = .inRequest p (.send (.start p)) →
    (∀ es, es <+: events → ∃ phase, (run (step handle) s es).calls t = .inRequest p phase) →
    ((run (step handle) s events).step handle e).calls t = .finished q (.ok r) →
    q = p ∧ ((run (step handle) s events).step handle e).returned = s.returned ++ [(t, p, r)] ∧
      ((run (step handle) s events).step handle e).child.handled = s.child.handled ++ [(p, r)]
  /-- Once a request has thrown from inside, no request returns any more, and one that
  gets the mutex throws. -/
  poisoned : ∀ (t : ℕ) (p q : List UInt8) (phase : RequestPhase) (error : RequestError)
    (e : Event) (later : List Event),
    s.calls t = .inRequest p phase → (s.step handle e).calls t = .finished q (.error error) →
    (∀ t' p' r, (run (step handle) (s.step handle e) later).calls t' = .finished p' (.ok r) →
      (s.step handle e).calls t' = .finished p' (.ok r)) ∧
    ∀ t' p' timeout now,
      (run (step handle) (s.step handle e) later).calls t' = .waiting p' timeout →
      ∃ error', ((run (step handle) (s.step handle e) later).step handle (.enter t' now)).calls t' =
        .finished p' (.error error')
  /-- A request with a payload or a timeout that is not allowed throws and changes
  nothing else. -/
  rejected : ∀ (t now : ℕ) (p : List UInt8) (timeout : ℤ), s.calls t = .waiting p timeout →
    s.holder = none →
    maxFrameBytes < p.length ∨ timeout ≤ 0 ∨ longestTimeout now < timeout →
    ∃ error, (error = .requestTooLarge ∨ error = .invalidTimeout) ∧
      s.step handle (.enter t now) = s.setCall t (.finished p (.error error))
  /-- While the child runs, a request within the limits can be carried out whenever
  the mutex is free, and returns the child's response. -/
  works : ∀ (t now : ℕ) (p : List UInt8) (timeout : ℤ), s.calls t = .waiting p timeout →
    s.holder = none → s.running = true → s.child.phase.gone = false →
    p.length ≤ maxFrameBytes → 0 < timeout → timeout ≤ longestTimeout now →
    (handle s.child.service p).1.length ≤ limit →
    ∃ later, (run (step handle) s later).calls t =
      .finished p (.ok (handle s.child.service p).1)
  /-- The child never leaves its loop because a frame is too large. -/
  accepted : s.child.phase ≠ .exited .frameTooLarge

theorem Coherent.poisoned {service : σ} {s : Host σ} (hs : Coherent handle service s) {t : ℕ}
    {p q : List UInt8} {phase : RequestPhase} {error : RequestError} {e : Event}
    (hcall : s.calls t = .inRequest p phase)
    (hthrow : (s.step handle e).calls t = .finished q (.error error)) :
    Dead (s.step handle e) (s.step handle e) := by
  rcases (s.step_move e).left_request hcall hthrow with ⟨r, hr, -, -⟩ | ⟨error', -, -, hstop⟩
  · simp at hr
  · rw [hstop]
    exact hs.dead_finishStop hcall error'

/-- A dead process holds no mutex. -/
theorem Coherent.holder_of_dead {service : σ} {s₀ s : Host σ} (hs : Coherent handle service s)
    (hdead : Dead s₀ s) : s.holder = none := by
  cases hs.link with
  | idle hholder hrunning h => exact hholder
  | busy t p phase unsent received hholder hcall hrunning hsize hphase h =>
      exact absurd hcall (hdead.outside t p phase)
  | stopped extra hholder hrunning hgone hextra hlog => exact hholder

/-- The arguments are checked before anything is written. -/
theorem step_enter_rejected {s : Host σ} {t now : ℕ} {p : List UInt8} {timeout : ℤ}
    (hcall : s.calls t = .waiting p timeout) (hholder : s.holder = none)
    (hbad : maxFrameBytes < p.length ∨ timeout ≤ 0 ∨ longestTimeout now < timeout) :
    ∃ error, (error = .requestTooLarge ∨ error = .invalidTimeout) ∧
      s.step handle (.enter t now) = s.setCall t (.finished p (.error error)) := by
  by_cases hlarge : maxFrameBytes < p.length
  · refine ⟨.requestTooLarge, .inl rfl, ?_⟩
    simp only [step, hcall, hholder, checkRequest, if_pos hlarge]
  · have htimeout := hbad.resolve_left hlarge
    refine ⟨.invalidTimeout, .inr rfl, ?_⟩
    simp only [step, hcall, hholder, checkRequest, if_neg hlarge, if_pos htimeout]

/-- The invariant gives the contract. -/
theorem Coherent.separated {service : σ} {s : Host σ} (hs : Coherent handle service s) :
    Separated handle service s where
  served := hs.served
  paired := by
    cases hs.link with
    | idle hholder hrunning h => exact ⟨[], by simp, by simpa using h.handled_eq⟩
    | busy t p phase unsent received hholder hcall hrunning hsize hphase h => exact h.handled_eq
    | stopped extra hholder hrunning hgone hextra hlog => exact ⟨extra, hextra, hlog⟩
  recorded := hs.recorded
  returns _ _ _ _ _ _ hstart hinside hreturn := hs.returns hstart hinside hreturn
  poisoned t p q phase error e later hcall hthrow := by
    -- a thrown request stops the child for good
    have hdead : Dead (s.step handle e) (run (step handle) (s.step handle e) later) :=
      (hs.poisoned hcall hthrow).run later
    refine ⟨hdead.finished, ?_⟩
    intro t' p' timeout now hwaiting
    have hlater := run_invariant (Coherent handle service) (fun s e h => h.move (s.step_move e))
      (hs.move (s.step_move e)) later
    exact hdead.enter hwaiting (hlater.holder_of_dead hdead) now
  rejected _ _ _ _ hcall hholder hbad := step_enter_rejected hcall hholder hbad
  works t now p timeout hcall hholder hrunning hgone hsize hpos hlong hlimit := by
    have hcheck := checkRequest_eq_ok.2 ⟨hsize, hpos, hlong, rfl⟩
    cases hs.link with
    | idle hholder' hrunning' h =>
        exact request_completes handle hcheck hlimit s
          ⟨h, hgone, hcall, hholder, hrunning, rfl⟩
    | busy t' p' phase unsent received hholder' hcall' hrunning' hsize' hphase h =>
        simp [hholder] at hholder'
    | stopped extra hholder' hrunning' hgone' hextra hlog => simp [hrunning] at hrunning'
  accepted := by
    cases hs.link with
    | idle hholder hrunning h => exact h.phase_ne_frameTooLarge
    | busy t p phase unsent received hholder hcall hrunning hsize hphase h =>
        exact h.phase_ne_frameTooLarge
    | stopped extra hholder hrunning hgone hextra hlog => simp [hgone]

end Host

/-- A service that numbers its responses. -/
def sampleHandle (count : ℕ) (payload : List UInt8) : List UInt8 × ℕ :=
  (payload ++ [UInt8.ofNat count], count + 1)

/-- Two threads call; the first gets the mutex, its frame goes out in two chunks, and
the response comes back. The second then sends part of its length and times out. -/
def sampleEvents : List Event :=
  [.call 0 [7] 1000, .call 1 [8] 1000, .enter 0 0, .enter 1 0, .write 0 3, .serve (.read 2),
    .write 0 1, .proceed 0, .write 0 1, .proceed 0, .serve (.read 2), .serve .proceed,
    .serve (.read 1), .serve .proceed, .serve (.write 4), .serve .proceed, .read 0 4, .proceed 0,
    .serve (.write 1), .read 0 1, .serve (.write 1), .read 0 1, .proceed 0, .enter 1 0, .write 1 2,
    .serve (.read 1), .fail 1 .timedOut]

/-- Framed requests never cross: in every state of every interleaving of any number
of threads with the child, with failures at any byte. -/
theorem framed_requests_never_cross (handle : σ → List UInt8 → List UInt8 × σ) (service : σ)
    (events : List Event) :
    Host.Separated handle service (run (Host.step handle) (Host.start service) events) :=
  (Host.coherent_run service events).separated

theorem framed_requests_never_cross_sample :
    let s := run (Host.step sampleHandle) (Host.start 0) sampleEvents
    s.calls 0 = .finished [7] (.ok [7, 0]) ∧ s.child.handled = [([7], [7, 0])] ∧
      (s.step sampleHandle (.stopped 1)).calls 1 = .finished [8] (.error .timedOut) ∧
      ∀ later t p r,
        (run (Host.step sampleHandle) (s.step sampleHandle (.stopped 1)) later).calls t =
          .finished p (.ok r) →
        (s.step sampleHandle (.stopped 1)).calls t = .finished p (.ok r) :=
  ⟨rfl, rfl, rfl, fun later =>
    ((framed_requests_never_cross sampleHandle 0 sampleEvents).poisoned 1 [8] [8]
      (.stopping .timedOut) .timedOut (.stopped 1) later rfl rfl).1⟩

end Lktrs.Protocol
