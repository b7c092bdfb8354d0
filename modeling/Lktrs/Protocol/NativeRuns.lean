import Lktrs.Protocol.NativeExchange

/-!
# Interleaved requests never cross

`Host.Move` says once what an event can do (`Host.step_move`); everything below is
read off it. `Host.Coherent` is the invariant of all interleavings: a thread
inside a request holds the mutex, between requests the streams are at a
`Boundary`, during one they are in its `Exchange`, and after a failure the child
is gone. It holds along every run (`Host.coherent_run`).
-/

set_option autoImplicit false

namespace Lktrs.Protocol

open Lktrs.Foundation

universe u

variable {σ : Type u} {handle : σ → List UInt8 → List UInt8 × σ}

/-! ## What an event can do -/

/-- What the child can do to itself and to the pipes. -/
inductive ChildMove (handle : σ → List UInt8 → List UInt8 × σ) (c : Child σ)
    (input output : List UInt8) : Child σ → List UInt8 → List UInt8 → Prop
  | read (reader : FrameReader) (n : ℕ) (hphase : c.phase = .receive reader) (hpos : 0 < n)
      (hn : n ≤ input.length) :
      ChildMove handle c input output { c with phase := .receive (reader.accept (input.take n)) }
        (input.drop n) output
  | write (writer : FrameWriter) (n : ℕ) (hphase : c.phase = .reply writer) (hpos : 0 < n)
      (hn : n ≤ writer.pending.length) :
      ChildMove handle c input output { c with phase := .reply (writer.written n) } input
        (output ++ writer.pending.take n)
  | proceed : ChildMove handle c input output (c.proceed handle) input output
  | exit (hgone : c.phase.gone = false) :
      ChildMove handle c input output { c with phase := .exited .ended } input output

/-- What the host has left to send and has received, where its phase fixes it. -/
def RequestPhase.Matches : RequestPhase → List UInt8 → List UInt8 → Prop
  | .send w, unsent, received => unsent = w.unsent ∧ received = []
  | .receive r, unsent, received => unsent = [] ∧ received = r.received
  | .stopping _, _, _ => True

namespace Host

/-- What an event can do. In `advance` a thread goes on inside its request without
moving a byte. -/
inductive Move (handle : σ → List UInt8 → List UInt8 × σ) (s : Host σ) : Host σ → Prop
  | stay : Move handle s s
  | call (t : ℕ) (p : List UInt8) (timeout : ℤ) (h : ∀ q ph, s.calls t ≠ .inRequest q ph) :
      Move handle s (s.setCall t (.waiting p timeout))
  | reject (t now : ℕ) (p : List UInt8) (timeout : ℤ) (e : RequestError)
      (hcall : s.calls t = .waiting p timeout)
      (hcheck : checkRequest s.running p timeout now = .error e) :
      Move handle s (s.setCall t (.finished p (.error e)))
  | enter (t now : ℕ) (p : List UInt8) (timeout : ℤ) (hcall : s.calls t = .waiting p timeout)
      (hholder : s.holder = none) (hcheck : checkRequest s.running p timeout now = .ok ()) :
      Move handle s { s.setCall t (.inRequest p (.send (.start p))) with holder := some t }
  | write (t n : ℕ) (p : List UInt8) (w : FrameWriter)
      (hcall : s.calls t = .inRequest p (.send w)) :
      Move handle s { s.setCall t (.inRequest p (.send (w.written n))) with
        input := s.input ++ w.pending.take n }
  | read (t n : ℕ) (p : List UInt8) (r : FrameReader)
      (hcall : s.calls t = .inRequest p (.receive r)) :
      Move handle s { s.setCall t (.inRequest p (.receive (r.accept (s.output.take n)))) with
        output := s.output.drop n }
  | advance (t : ℕ) (p : List UInt8) (phase phase' : RequestPhase)
      (hcall : s.calls t = .inRequest p phase)
      (h : ∀ unsent received, phase.Matches unsent received → phase'.Matches unsent received) :
      Move handle s (s.setCall t (.inRequest p phase'))
  | giveBack (t : ℕ) (p : List UInt8) (size : UInt32) (got : List UInt8)
      (hcall : s.calls t = .inRequest p (.receive (.body size got)))
      (hgot : got.length = size.toNat) : Move handle s (s.giveBack t p got)
  | stop (t : ℕ) (p : List UInt8) (e : RequestError)
      (hcall : s.calls t = .inRequest p (.stopping e)) : Move handle s (s.finishStop t p e)
  | serve (c : Child σ) (input output : List UInt8)
      (h : ChildMove handle s.child s.input s.output c input output) :
      Move handle s { s with child := c, input := input, output := output }

theorem proceed_move (s : Host σ) (t : ℕ) : Move handle s (s.proceed t) := by
  simp only [proceed]
  split
  · rename_i p body hcall
    apply Move.advance t p _ _ hcall
    intro unsent received h
    exact h
  · rename_i p hcall
    apply Move.advance t p _ _ hcall
    intro unsent received h
    exact h
  · rename_i p got hcall
    split
    · rename_i hgot
      split
      · exact Move.advance t p _ _ hcall fun _ _ _ => trivial
      · apply Move.advance t p _ _ hcall
        intro unsent received h
        exact ⟨h.1, h.2.trans (FrameReader.received_body_nil hgot).symm⟩
    · exact .stay
  · rename_i p size got hcall
    split
    · rename_i hgot
      exact .giveBack t p size got hcall hgot
    · exact .stay
  · exact .stay

theorem serve_move (s : Host σ) (e : ServeEvent) : Move handle s (s.serve handle e) := by
  cases e with
  | read n =>
      simp only [serve]
      split
      · rename_i r hphase
        split
        · rename_i h
          exact .serve _ _ _ (.read r n hphase h.1 h.2.1)
        · exact .stay
      · exact .stay
  | write n =>
      simp only [serve]
      split
      · rename_i w hphase
        split
        · rename_i h
          exact .serve _ _ _ (.write w n hphase h.1 h.2)
        · exact .stay
      · exact .stay
  | proceed => exact .serve _ _ _ .proceed
  | exit =>
      simp only [serve]
      split
      · exact .stay
      · rename_i hgone
        exact .serve _ _ _ (.exit (by simpa using hgone))

/-- Every event is one of the moves. -/
theorem step_move (s : Host σ) (e : Event) : Move handle s (s.step handle e) := by
  cases e with
  | call t p timeout =>
      simp only [step]
      -- a thread calls again only after its last call was finished
      split
      · rename_i hcall
        exact .call t p timeout (by simp [hcall])
      · rename_i hcall
        exact .call t p timeout (by simp [hcall])
      · exact .stay
  | enter t now =>
      simp only [step]
      split
      · rename_i p timeout hcall hholder
        split
        · rename_i e hcheck
          exact .reject t now p timeout e hcall hcheck
        · rename_i hcheck
          exact .enter t now p timeout hcall hholder hcheck
      · exact .stay
  | write t n =>
      simp only [step]
      split
      · rename_i p w hcall
        split
        · exact .write t n p w hcall
        · exact .stay
      · exact .stay
  | read t n =>
      simp only [step]
      split
      · rename_i p r hcall
        split
        · exact .read t n p r hcall
        · exact .stay
      · exact .stay
  | proceed t => exact s.proceed_move t
  | fail t e =>
      simp only [step]
      split
      · rename_i p phase hcall
        split
        · exact .advance t p phase _ hcall fun _ _ _ => trivial
        · exact .stay
      · exact .stay
  | stopped t =>
      simp only [step]
      split
      · rename_i p e hcall
        exact .stop t p e hcall
      · exact .stay
  | serve e => exact s.serve_move e

end Host

/-! ## The child's log -/

/-- The log of a service: each payload was handled in the state that the ones before
it left, and its response is what `handle` gave for it. -/
inductive Served (handle : σ → List UInt8 → List UInt8 × σ) (service : σ) :
    List (List UInt8 × List UInt8) → σ → Prop
  | nil : Served handle service [] service
  | snoc {log : List (List UInt8 × List UInt8)} {state : σ} (h : Served handle service log state)
      (p : List UInt8) :
      Served handle service (log ++ [(p, (handle state p).1)]) (handle state p).2

/-- The child's next statement handles at most one payload. -/
theorem Served.childProceed {service : σ} {c : Child σ}
    (h : Served handle service c.handled c.service) :
    Served handle service (c.proceed handle).handled (c.proceed handle).service := by
  unfold Child.proceed
  split
  · split
    · split
      · exact h
      · exact h
    · exact h
  · split
    · exact h.snoc _
    · exact h
  · exact h
  · exact h
  · exact h

theorem Served.childMove {service : σ} {c c' : Child σ} {input output input' output' : List UInt8}
    (h : Served handle service c.handled c.service)
    (hmove : ChildMove handle c input output c' input' output') :
    Served handle service c'.handled c'.service := by
  cases hmove with
  | read reader n hphase hpos hn => exact h
  | write writer n hphase hpos hn => exact h
  | proceed => exact h.childProceed
  | exit hgone => exact h

/-! ## The streams under the child's moves -/

theorem Exchange.childMove {c c' : Child σ} {input output input' output' p unsent received : List UInt8}
    {done : List (List UInt8 × List UInt8)} (hp : p.length ≤ limit)
    (h : Exchange c input output done p unsent received)
    (hmove : ChildMove handle c input output c' input' output') :
    Exchange c' input' output' done p unsent received := by
  cases hmove with
  | read reader n hphase hpos hn =>
      rw [← List.take_append_drop n input] at h
      apply Exchange.childRead hphase _ h
      simp only [ne_eq, List.take_eq_nil_iff, not_or]
      exact ⟨by omega, List.ne_nil_of_length_pos (by omega)⟩
  | write writer n hphase hpos hn => exact h.childWrite hphase hpos hn
  | proceed => exact h.childProceed handle hp
  | exit hgone => exact h.childExit hgone

/-- Between requests the child can finish its turn of the loop or leave it. -/
theorem Boundary.childMove {c c' : Child σ} {input output input' output' : List UInt8}
    {done : List (List UInt8 × List UInt8)} (h : Boundary c input output done)
    (hmove : ChildMove handle c input output c' input' output') :
    Boundary c' input' output' done := by
  cases hmove with
  | read reader n hphase' hpos hn =>
      -- nothing is left in the pipe between requests, so there is no byte to read
      cases h with
      | ready hphase hin hout hlog => simp [hin] at hn; omega
      | replied writer hphase hsent hin hout hlog => simp [hin] at hn; omega
      | gone reason hphase hreason hout hlog => simp [hphase] at hphase'
  | write writer' n hphase' hpos hn =>
      cases h with
      | ready hphase hin hout hlog => simp [hphase] at hphase'
      | replied writer hphase hsent hin hout hlog =>
          obtain rfl : writer = writer' := by simpa [hphase] using hphase'
          -- a reply that was sent has no bytes left to write
          rcases FrameWriter.eq_of_unsent_nil hsent with rfl | rfl
          · simp [FrameWriter.pending] at hn; omega
          · simp [FrameWriter.pending] at hn; omega
      | gone reason hphase hreason hout hlog => simp [hphase] at hphase'
  | proceed =>
      cases h with
      | ready hphase hin hout hlog =>
          have hstay : c.proceed handle = c := by simp [Child.proceed, hphase, FrameReader.start]
          rw [hstay]
          exact .ready hphase hin hout hlog
      | replied writer hphase hsent hin hout hlog =>
          rcases FrameWriter.eq_of_unsent_nil hsent with rfl | rfl
          · simp only [Child.proceed, hphase]
            exact .replied (.body []) rfl rfl hin hout hlog
          · simp only [Child.proceed, hphase]
            exact .ready rfl hin hout hlog
      | gone reason hphase hreason hout hlog =>
          simp only [Child.proceed, hphase]
          exact .gone reason hphase hreason hout hlog
  | exit hgone =>
      cases h with
      | ready hphase hin hout hlog => exact .gone .ended rfl (by simp) hout hlog
      | replied writer hphase hsent hin hout hlog => exact .gone .ended rfl (by simp) hout hlog
      | gone reason hphase hreason hout hlog => simp [hphase, ServePhase.gone] at hgone

/-! ## The invariant of all interleavings -/

namespace Host

/-- The payloads answered so far, with what was returned for each. -/
def answers (s : Host σ) : List (List UInt8 × List UInt8) := s.returned.map Prod.snd

@[simp] theorem answers_setCall (s : Host σ) (t : ℕ) (c : Call) :
    (s.setCall t c).answers = s.answers := rfl

@[simp] theorem answers_giveBack (s : Host σ) (t : ℕ) (p r : List UInt8) :
    (s.giveBack t p r).answers = s.answers ++ [(p, r)] := by
  simp [answers, giveBack]

/-- The state of the streams, by who holds the mutex and whether the child has been
stopped. -/
inductive Link (s : Host σ) : Prop
  | idle (hholder : s.holder = none) (hrunning : s.running = true)
      (h : Boundary s.child s.input s.output s.answers)
  | busy (t : ℕ) (p : List UInt8) (phase : RequestPhase) (unsent received : List UInt8)
      (hholder : s.holder = some t) (hcall : s.calls t = .inRequest p phase)
      (hrunning : s.running = true) (hsize : p.length ≤ limit)
      (hphase : phase.Matches unsent received)
      (h : Exchange s.child s.input s.output s.answers p unsent received)
  | stopped (extra : List (List UInt8 × List UInt8)) (hholder : s.holder = none)
      (hrunning : s.running = false) (hgone : s.child.phase = .exited .ended)
      (hextra : extra.length ≤ 1) (hlog : s.child.handled = s.answers ++ extra)

/-- What holds in every state of every interleaving. -/
structure Coherent (handle : σ → List UInt8 → List UInt8 × σ) (service : σ) (s : Host σ) :
    Prop where
  alone : ∀ t p phase, s.calls t = .inRequest p phase → s.holder = some t
  link : s.Link
  served : Served handle service s.child.handled s.child.service
  recorded : ∀ t p r, s.calls t = .finished p (.ok r) → (t, p, r) ∈ s.returned

theorem coherent_start (service : σ) : Coherent handle service (start service) where
  alone := by simp [start]
  link := .idle rfl rfl (.ready rfl rfl rfl rfl)
  served := .nil
  recorded := by simp [start]

/-- A thread inside a request determines the state of the streams. -/
theorem Coherent.busy {service : σ} {s : Host σ} (hs : Coherent handle service s) {t : ℕ}
    {p : List UInt8} {phase : RequestPhase} (hcall : s.calls t = .inRequest p phase) :
    s.holder = some t ∧ s.running = true ∧ p.length ≤ limit ∧
      ∃ unsent received, phase.Matches unsent received ∧
        Exchange s.child s.input s.output s.answers p unsent received := by
  have hholder := hs.alone t p phase hcall
  cases hs.link with
  | idle hnone hrunning h => simp [hholder] at hnone
  | stopped extra hnone hrunning hgone hextra hlog => simp [hholder] at hnone
  | busy t' p' phase' unsent received hholder' hcall' hrunning hsize hphase h =>
      obtain rfl : t = t' := by simpa [hholder] using hholder'
      obtain ⟨rfl, rfl⟩ : p = p' ∧ phase = phase' := by simpa [hcall] using hcall'
      exact ⟨hholder, hrunning, hsize, unsent, received, hphase, h⟩

/-- Without a thread inside a request, setting a call that is not one keeps the
mutex discipline. -/
theorem alone_setCall {s : Host σ} {t : ℕ} {c : Call}
    (h : ∀ t p phase, s.calls t = .inRequest p phase → s.holder = some t)
    (hc : ∀ p phase, c ≠ .inRequest p phase) (t' : ℕ) (p : List UInt8) (phase : RequestPhase)
    (hcall : (s.setCall t c).calls t' = .inRequest p phase) : s.holder = some t' := by
  by_cases ht : t' = t
  · subst ht
    simp only [setCall, Function.update_self] at hcall
    exact absurd hcall (hc p phase)
  · simp only [setCall, Function.update_of_ne ht] at hcall
    exact h t' p phase hcall

/-- The holder goes on inside its request: nobody else is in one. -/
theorem alone_of_holder {s : Host σ} {t : ℕ} {c : Call}
    (h : ∀ t p phase, s.calls t = .inRequest p phase → s.holder = some t)
    (hholder : s.holder = some t ∨ s.holder = none) (t' : ℕ) (p : List UInt8)
    (phase : RequestPhase) (hcall : (s.setCall t c).calls t' = .inRequest p phase) : t = t' := by
  by_contra ht
  simp only [setCall, Function.update_of_ne (Ne.symm ht)] at hcall
  have hother := h t' p phase hcall
  rcases hholder with hholder | hholder
  · rw [hholder] at hother
    exact ht (Option.some.inj hother)
  · simp [hholder] at hother

theorem recorded_setCall {s : Host σ} {t : ℕ} {c : Call}
    (h : ∀ t p r, s.calls t = .finished p (.ok r) → (t, p, r) ∈ s.returned)
    (hc : ∀ p r, c ≠ .finished p (.ok r)) (t' : ℕ) (p r : List UInt8)
    (hcall : (s.setCall t c).calls t' = .finished p (.ok r)) : (t', p, r) ∈ s.returned := by
  by_cases ht : t' = t
  · subst ht
    simp only [setCall, Function.update_self] at hcall
    exact absurd hcall (hc p r)
  · simp only [setCall, Function.update_of_ne ht] at hcall
    exact h t' p r hcall

/-- A call outside a request changes nothing that the streams depend on. -/
theorem Link.setCall {s : Host σ} (h : s.Link) {t : ℕ} {c : Call}
    (ht : ∀ p phase, s.calls t ≠ .inRequest p phase) : (s.setCall t c).Link := by
  cases h with
  | idle hholder hrunning h => exact .idle hholder hrunning h
  | busy t' p phase unsent received hholder hcall hrunning hsize hphase h =>
      have hne : t' ≠ t := by
        rintro rfl
        exact ht p phase hcall
      refine .busy t' p phase unsent received hholder ?_ hrunning hsize hphase h
      simp only [Host.setCall, Function.update_of_ne hne]
      exact hcall
  | stopped extra hholder hrunning hgone hextra hlog =>
      exact .stopped extra hholder hrunning hgone hextra hlog

/-- The checks pass only for a payload that fits a frame and a child that runs. -/
theorem checkRequest_eq_ok {running : Bool} {p : List UInt8} {timeout : ℤ} {now : ℕ} :
    checkRequest running p timeout now = .ok () ↔
      p.length ≤ maxFrameBytes ∧ 0 < timeout ∧ timeout ≤ longestTimeout now ∧
        running = true := by
  unfold checkRequest
  split
  · rename_i hlarge
    simp only [reduceCtorEq, false_iff]
    exact fun h => absurd h.1 (Nat.not_le_of_lt hlarge)
  · rename_i hsmall
    split
    · rename_i hbad
      simp only [reduceCtorEq, false_iff]
      rintro ⟨-, hpos, hlong, -⟩
      omega
    · rename_i hgood
      simp only [not_or, not_le, not_lt] at hsmall hgood
      cases running with
      | true => simp [hsmall, hgood]
      | false => simp

/-- Every move keeps the invariant. -/
theorem Coherent.move {service : σ} {s s' : Host σ} (hs : Coherent handle service s)
    (hmove : Move handle s s') : Coherent handle service s' := by
  cases hmove with
  | stay => exact hs
  | call t p timeout h =>
      exact ⟨alone_setCall hs.alone (by simp), hs.link.setCall h, hs.served,
        recorded_setCall hs.recorded (by simp)⟩
  | reject t now p timeout e hcall hcheck =>
      exact ⟨alone_setCall hs.alone (by simp), hs.link.setCall (by simp [hcall]), hs.served,
        recorded_setCall hs.recorded (by simp)⟩
  | enter t now p timeout hcall hholder hcheck =>
      obtain ⟨hsize, -, -, hrunning⟩ := checkRequest_eq_ok.1 hcheck
      refine ⟨?_, ?_, hs.served, recorded_setCall hs.recorded (by simp)⟩
      · intro t' p' phase hcall'
        exact congrArg some (alone_of_holder hs.alone (.inr hholder) t' p' phase hcall')
      · cases hs.link with
        | idle hnone hrunning' h =>
            exact .busy t p (.send (.start p)) (frame p) [] rfl (by simp [setCall]) hrunning
              (maxFrameBytes_eq_limit ▸ hsize) ⟨rfl, rfl⟩ (.opened h p)
        | busy t' p' phase unsent received hholder' hcall' hrunning' hsize' hphase h =>
            simp [hholder] at hholder'
        | stopped extra hnone hrunning' hgone hextra hlog => simp [hrunning] at hrunning'
  | write t n p w hcall =>
      obtain ⟨hholder, hrunning, hsize, unsent, received, ⟨rfl, rfl⟩, h⟩ := hs.busy hcall
      refine ⟨?_, ?_, hs.served, recorded_setCall hs.recorded (by simp)⟩
      · intro t' p' phase hcall'
        exact hholder.trans
          (congrArg some (alone_of_holder hs.alone (.inl hholder) t' p' phase hcall'))
      · rw [← w.take_pending_append n] at h
        exact .busy t p (.send (w.written n)) (w.written n).unsent [] hholder (by simp [setCall])
          hrunning hsize ⟨rfl, rfl⟩ h.sent
  | read t n p r hcall =>
      obtain ⟨hholder, hrunning, hsize, unsent, received, ⟨rfl, rfl⟩, h⟩ := hs.busy hcall
      refine ⟨?_, ?_, hs.served, recorded_setCall hs.recorded (by simp)⟩
      · intro t' p' phase hcall'
        exact hholder.trans
          (congrArg some (alone_of_holder hs.alone (.inl hholder) t' p' phase hcall'))
      · rw [← List.take_append_drop n s.output] at h
        have htaken := h.taken
        rw [← FrameReader.received_accept] at htaken
        exact .busy t p (.receive (r.accept (s.output.take n))) []
          (r.accept (s.output.take n)).received hholder (by simp [setCall]) hrunning hsize
          ⟨rfl, rfl⟩ htaken
  | advance t p phase phase' hcall hmatches =>
      obtain ⟨hholder, hrunning, hsize, unsent, received, hphase, h⟩ := hs.busy hcall
      refine ⟨?_, ?_, hs.served, recorded_setCall hs.recorded (by simp)⟩
      · intro t' p' phase hcall'
        exact hholder.trans
          (congrArg some (alone_of_holder hs.alone (.inl hholder) t' p' phase hcall'))
      · exact .busy t p phase' unsent received hholder (by simp [setCall]) hrunning hsize
          (hmatches unsent received hphase) h
  | giveBack t p size got hcall hgot =>
      obtain ⟨hholder, hrunning, hsize, unsent, received, ⟨rfl, rfl⟩, h⟩ := hs.busy hcall
      rw [FrameReader.received_of_complete hgot] at h
      refine ⟨?_, ?_, hs.served, ?_⟩
      · intro t' p' phase hcall'
        -- the thread that returned was the only one inside
        have ht := alone_of_holder hs.alone (.inl hholder) t' p' phase hcall'
        subst ht
        simp [giveBack, setCall] at hcall'
      · refine .idle rfl hrunning ?_
        rw [answers_giveBack]
        exact h.closed (FrameReader.length_lt_of_complete hgot)
      · intro t' p' r hcall'
        by_cases ht : t' = t
        · subst ht
          simp only [giveBack, setCall, Function.update_self, Call.finished.injEq,
            Except.ok.injEq] at hcall'
          simp [giveBack, hcall']
        · simp only [giveBack, setCall, Function.update_of_ne ht] at hcall'
          exact List.mem_append_left _ (hs.recorded t' p' r hcall')
  | stop t p e hcall =>
      obtain ⟨hholder, hrunning, hsize, unsent, received, -, h⟩ := hs.busy hcall
      obtain ⟨extra, hextra, hlog⟩ := h.handled_eq
      refine ⟨?_, .stopped extra rfl rfl rfl hextra hlog, hs.served,
        recorded_setCall hs.recorded (by simp)⟩
      intro t' p' phase hcall'
      have ht := alone_of_holder hs.alone (.inl hholder) t' p' phase hcall'
      subst ht
      simp [finishStop, setCall] at hcall'
  | serve c input output hchild =>
      refine ⟨hs.alone, ?_, hs.served.childMove hchild, hs.recorded⟩
      cases hs.link with
      | idle hholder hrunning h => exact .idle hholder hrunning (h.childMove hchild)
      | busy t p phase unsent received hholder hcall hrunning hsize hphase h =>
          exact .busy t p phase unsent received hholder hcall hrunning hsize hphase
            (h.childMove hsize hchild)
      | stopped extra hholder hrunning hgone hextra hlog =>
          -- a child that was killed does not move
          cases hchild with
          | read reader n hphase hpos hn => simp [hgone] at hphase
          | write writer n hphase hpos hn => simp [hgone] at hphase
          | proceed =>
              have hstay : s.child.proceed handle = s.child := by simp [Child.proceed, hgone]
              rw [hstay]
              exact .stopped extra hholder hrunning hgone hextra hlog
          | exit hgone' => simp [hgone, ServePhase.gone] at hgone'

theorem coherent_run (service : σ) (events : List Event) :
    Coherent handle service (run (step handle) (start service) events) :=
  run_invariant (Coherent handle service) (fun s e hs => hs.move (s.step_move e))
    (coherent_start service) events

/-! ## Leaving a request -/

/-- A thread leaves its request in one of two ways: with a complete response, or out
of `stop` with the exception. -/
theorem Move.left_request {s s' : Host σ} (hmove : Move handle s s') {t : ℕ} {p q : List UInt8}
    {phase : RequestPhase} {result : Except RequestError (List UInt8)}
    (hcall : s.calls t = .inRequest p phase) (hleft : s'.calls t = .finished q result) :
    (∃ r, result = .ok r ∧ q = p ∧ s' = s.giveBack t p r) ∨
      ∃ e, result = .error e ∧ q = p ∧ s' = s.finishStop t p e := by
  -- a move of another thread, or one that stays in the request, leaves no finished call at `t`
  have hother : ∀ {t' c}, (t' = t → ∀ q result, c ≠ .finished q result) →
      (s.setCall t' c).calls t ≠ .finished q result := by
    intro t' c hc hfinished
    by_cases ht : t' = t
    · subst ht
      simp only [setCall, Function.update_self] at hfinished
      exact hc rfl q result hfinished
    · simp [setCall, Function.update_of_ne (Ne.symm ht), hcall] at hfinished
  cases hmove with
  | stay => simp [hcall] at hleft
  | call t' p' timeout h => exact absurd hleft (hother (by simp))
  | reject t' now p' timeout e hcall' hcheck =>
      refine absurd hleft (hother ?_)
      rintro rfl
      simp [hcall] at hcall'
  | enter t' now p' timeout hcall' hholder hcheck => exact absurd hleft (hother (by simp))
  | write t' n p' w hcall' => exact absurd hleft (hother (by simp))
  | read t' n p' r hcall' => exact absurd hleft (hother (by simp))
  | advance t' p' phase phase' hcall' h => exact absurd hleft (hother (by simp))
  | giveBack t' p' size got hcall' hgot =>
      by_cases ht : t' = t
      · subst ht
        obtain ⟨rfl, -⟩ : p = p' ∧ phase = .receive (.body size got) := by
          simpa [hcall] using hcall'
        obtain ⟨rfl, rfl⟩ : p = q ∧ .ok got = result := by
          simpa [Host.giveBack, Host.setCall] using hleft
        exact Or.inl ⟨got, rfl, rfl, rfl⟩
      · simp [Host.giveBack, Host.setCall, Function.update_of_ne (Ne.symm ht), hcall] at hleft
  | stop t' p' e hcall' =>
      by_cases ht : t' = t
      · subst ht
        obtain ⟨rfl, -⟩ : p = p' ∧ phase = .stopping e := by simpa [hcall] using hcall'
        obtain ⟨rfl, rfl⟩ : p = q ∧ .error e = result := by
          simpa [finishStop, setCall] using hleft
        exact Or.inr ⟨e, rfl, rfl, rfl⟩
      · simp [finishStop, setCall, Function.update_of_ne (Ne.symm ht), hcall] at hleft
  | serve c input output h => simp [hcall] at hleft

/-- After a failure: the child is gone, nobody is inside a request, and the requests
that have returned are among those that had returned in `s₀`. -/
structure Dead (s₀ s : Host σ) : Prop where
  running : s.running = false
  outside : ∀ t p phase, s.calls t ≠ .inRequest p phase
  returned : s.returned = s₀.returned
  finished : ∀ t p r, s.calls t = .finished p (.ok r) → s₀.calls t = .finished p (.ok r)

/-- Setting a call that neither enters a request nor returns. -/
theorem Dead.setCall {s₀ s : Host σ} (h : Dead s₀ s) (t : ℕ) {c : Call}
    (hrequest : ∀ p phase, c ≠ .inRequest p phase) (hok : ∀ p r, c ≠ .finished p (.ok r)) :
    Dead s₀ (s.setCall t c) where
  running := h.running
  outside := by
    intro t' p phase hcall
    by_cases ht : t' = t
    · subst ht
      simp only [Host.setCall, Function.update_self] at hcall
      exact hrequest p phase hcall
    · simp only [Host.setCall, Function.update_of_ne ht] at hcall
      exact h.outside t' p phase hcall
  returned := h.returned
  finished := by
    intro t' p r hcall
    by_cases ht : t' = t
    · subst ht
      simp only [Host.setCall, Function.update_self] at hcall
      exact absurd hcall (hok p r)
    · simp only [Host.setCall, Function.update_of_ne ht] at hcall
      exact h.finished t' p r hcall

theorem Dead.move {s₀ s s' : Host σ} (h : Dead s₀ s) (hmove : Move handle s s') : Dead s₀ s' := by
  cases hmove with
  | stay => exact h
  | call t p timeout hcall => exact h.setCall t (by simp) (by simp)
  | reject t now p timeout e hcall hcheck => exact h.setCall t (by simp) (by simp)
  | enter t now p timeout hcall hholder hcheck =>
      have hrunning := (checkRequest_eq_ok.1 hcheck).2.2.2
      simp [h.running] at hrunning
  | write t n p w hcall => exact absurd hcall (h.outside t p _)
  | read t n p r hcall => exact absurd hcall (h.outside t p _)
  | advance t p phase phase' hcall hmatches => exact absurd hcall (h.outside t p _)
  | giveBack t p size got hcall hgot => exact absurd hcall (h.outside t p _)
  | stop t p e hcall => exact absurd hcall (h.outside t p _)
  | serve c input output hchild => exact ⟨h.running, h.outside, h.returned, h.finished⟩

theorem Dead.run {s₀ s : Host σ} (h : Dead s₀ s) (events : List Event) :
    Dead s₀ (run (step handle) s events) :=
  run_invariant (Dead s₀) (fun s e hs => hs.move (s.step_move e)) h events

/-- A request that throws from its `try` block leaves the process dead. -/
theorem Coherent.dead_finishStop {service : σ} {s : Host σ} (hs : Coherent handle service s)
    {t : ℕ} {p : List UInt8} {phase : RequestPhase} (hcall : s.calls t = .inRequest p phase)
    (e : RequestError) : Dead (s.finishStop t p e) (s.finishStop t p e) where
  running := rfl
  outside := by
    intro t' p' phase' hcall'
    have ht := alone_of_holder hs.alone (.inl (hs.busy hcall).1) t' p' phase' hcall'
    subst ht
    simp [finishStop, setCall] at hcall'
  returned := rfl
  finished := fun _ _ _ h => h

/-- In a dead process a request that gets the mutex throws at once. -/
theorem Dead.enter {s₀ s : Host σ} (h : Dead s₀ s) {t : ℕ} {p : List UInt8} {timeout : ℤ}
    (hcall : s.calls t = .waiting p timeout) (hholder : s.holder = none) (now : ℕ) :
    ∃ e, (s.step handle (.enter t now)).calls t = .finished p (.error e) := by
  simp only [step, hcall, hholder]
  split
  · rename_i e hcheck
    exact ⟨e, by simp [Host.setCall]⟩
  · rename_i hcheck
    have hrunning := (checkRequest_eq_ok.1 hcheck).2.2.2
    simp [h.running] at hrunning

end Host

end Lktrs.Protocol
