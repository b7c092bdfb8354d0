import Lktrs.Foundation.JsonTokens
import Lktrs.Foundation.Runs

/-!
# The demonstration server

`cmd/lktrs-demo/server.go` drives the eight steps of a scenario over HTTP. A request
is checked for its host, its origin, the session token and its body before it reaches
the state; an accepted `advance` starts a worker, and at most one worker runs. The
engine behind it is left open here: a worker ends with any engine and any error text, in
any interleaving with requests and progress messages.

`Stage.next` is the scenario as an automaton over what happens to the engine. Every run
of the server is a run of that automaton, and the view shows its stage (`App.Shows`).
From that come the results: between two resets the steps run in order, one at a time and
none after a failure (`demo_steps_in_order`), and a request does exactly what the stage
and its JSON body allow (`demo_requests_exact`).
-/

set_option autoImplicit false

namespace Lktrs.NativeProof

open Lktrs.Foundation

namespace Demo

structure StepInfo where
  title : String
  detail : String
deriving Repr, DecidableEq

/-- `steps`. -/
def steps : List StepInfo :=
  [⟨"建立协作组", "注册三位参与者、四台设备，签发成员快照。首次生成证明参数可能需要数分钟。"⟩,
    ⟨"提交第一份报告", "Alice 的上游传感器提交一份模拟水质报告，生成真实证明并独立校验。"⟩,
    ⟨"切换设备", "重新打开 Alice 的钱包，从另一台设备提交；检查共享计数和同一期关联。"⟩,
    ⟨"另一位参与者", "Bob 提交报告，验证其成员资格并比较两个用户的公开化名。"⟩,
    ⟨"用完三个额度", "Alice 提交第三份报告，再尝试第四次；检查正常钱包的额度限制。"⟩,
    ⟨"模拟恶意重用", "明确绕过钱包，重用第一个计数槽签署不同报告，再用两份有效证明追责。"⟩,
    ⟨"撤销全部设备", "撤销 Alice 的两个账号、更新成员快照，检查旧证明与新提交的不同结果。"⟩,
    ⟨"独立进程复核", "导出公开材料，用独立命令验签，并检查篡改消息和错误成员版本会被拒绝。"⟩]

structure Check where
  label : String
  result : String
  detail : String
  ms : ℤ
deriving Repr, DecidableEq

structure ReportView where
  id : ℕ
  message : String
  nym : String
  serial : String
  epoch : ℕ
  proofBytes : ℕ
  proveMS : ℤ
  verifyMS : ℤ
  decision : String
  traceUser : String
deriving Repr, DecidableEq

/-- The part of the view that `engine.snapshot` fills. -/
structure Snapshot where
  run : String
  issue : String
  pin : String
  epoch : ℕ
  aliceUsed : ℕ
  bobUsed : ℕ
  revoked : Bool
  reports : List ReportView
  checks : List Check
  exported : Bool
deriving Repr, DecidableEq

/-- The view of an engine that has done nothing. -/
def Snapshot.zero : Snapshot := ⟨"", "", "", 0, 0, 0, false, [], [], false⟩

/-- `view`. -/
structure View extends Snapshot where
  steps : List StepInfo
  next : ℕ
  busy : Bool
  started : ℤ
  phase : String
  error : String
  token : String
deriving Repr, DecidableEq

/-- What the server uses of the engine: a new one, one that replaces another after a
reset, its view and its evidence. -/
structure Engine (σ : Type) where
  fresh : σ
  reset : σ → σ
  snapshot : σ → Snapshot
  bundle : σ → List UInt8

/-- `app`. `worker` is the argument of the running `advance`. -/
structure App (σ : Type) where
  engine : σ
  state : View
  host : String
  token : String
  bundle : List UInt8
  worker : Option ℕ

/-- The view before the first step. -/
def initialView (token : String) : View :=
  ⟨.zero, steps, 0, false, 0, "等待建立协作组", "", token⟩

variable {σ : Type} (api : Engine σ)

/-- `newApp`. -/
def newApp (host token : String) : App σ :=
  ⟨api.fresh, initialView token, host, token, [], none⟩

/-! ## Reading a command -/

/-- `Decode(&step)` into an `int` pointer. -/
def decodeStep : Lexeme → Option (Option ℤ)
  | .null => some none
  | .number literal =>
      match integerLiteral literal with
      | some n => if -2 ^ 63 ≤ n ∧ n < 2 ^ 63 then some (some n) else none
      | none => none
  | _ => none

/-- The loop of `decodeAction` behind the opening brace. -/
def actionFields : Bool → Option ℤ → List Lexeme → Option (Option ℤ × List Lexeme)
  | _, step, .closeBrace :: rest => some (step, rest)
  | seen, _, .string key :: .colon :: value :: rest =>
      if key ≠ "step" ∨ seen = true then none
      else match decodeStep value with
      | some step => actionFields true step rest
      | none => none
  -- a comma leads to a second field, which is unknown or a duplicate; the rest is no object
  | _, _, _ => none

/-- `decodeAction`, on the lexemes the decoder can read: the step and what is left. -/
def decodeAction : List Lexeme → Option (Option ℤ × List Lexeme)
  | .openBrace :: rest => actionFields false none rest
  | _ => none

/-- The limit of `MaxBytesReader`. -/
def bodyLimit : ℕ := 1024

/-- The characters that are complete within the first `limit` bytes. -/
def within : ℕ → List Char → List Char
  | _, [] => []
  | limit, c :: cs => if c.utf8Size ≤ limit then c :: within (limit - c.utf8Size) cs else []

/-- What the decoder sees of a body: a body over the limit ends with a read error. -/
def bodyLexemes (body : String) : List Lexeme × StreamEnd :=
  if body.utf8ByteSize ≤ bodyLimit then readLexemes endOfText .idle body.toList
  else readLexemes cutOff .idle (within bodyLimit body.toList)

/-- The command of a body, or the text of the error. -/
def readCommand (body : String) : Except String (Option ℤ) :=
  match decodeAction (bodyLexemes body).1 with
  | none => .error "invalid request"
  | some (step, rest) =>
      -- the decoder must reach the end of the body behind the object
      if rest = [] ∧ (bodyLexemes body).2 = .eof then .ok step
      else .error "trailing request data"

/-! ## Requests -/

/-- What the handler reads of a request; an absent header reads as the empty text. -/
structure Request where
  host : String
  origin : String
  site : String
  method : String
  path : String
  token : String
  contentType : String
  body : String
deriving Repr, DecidableEq

inductive Reply where
  | error (status : ℕ) (text : String)
  | state (v : View)
  | zip (bundle : List UInt8)
  | asset (name : String)
  | noContent
  | accepted
deriving Repr, DecidableEq

/-- The `GET` routes. -/
def App.get (a : App σ) (path : String) : Reply :=
  if path = "/api/state" then .state a.state
  else if path = "/api/export" then
    if a.bundle = [] then .error 409 "complete independent verification first" else .zip a.bundle
  else if path = "/" then .asset "index.html"
  else if path = "/app.js" then .asset "app.js"
  else if path = "/style.css" then .asset "style.css"
  else .error 404 "404 page not found"

/-- `reset`: the engine is replaced, and with it the evidence and the view. -/
def App.reset (a : App σ) : App σ :=
  { a with engine := api.reset a.engine, bundle := [], state := initialView a.token }

/-- A worker is started on the next step. -/
def App.start (a : App σ) (now : ℤ) : App σ :=
  { a with
    state := { a.state with
      busy := true, started := now,
      phase := (steps[a.state.next]?.map StepInfo.title).getD "" }
    worker := some a.state.next }

/-- The part of the handler that holds the lock. -/
def App.command (a : App σ) (now : ℤ) (path : String) (step : Option ℤ) : App σ × Reply :=
  if a.state.busy then (a, .error 409 "a step is already running")
  else if path = "/api/reset" then
    if step ≠ none then (a, .error 400 "reset takes no step") else (a.reset api, .noContent)
  else if step ≠ some (a.state.next : ℤ) ∨ steps.length ≤ a.state.next ∨ a.state.error ≠ "" then
    (a, .error 409 "unexpected step; reset after a failed run")
  else (a.start now, .accepted)

/-- `ServeHTTP`. -/
def App.serveHTTP (a : App σ) (now : ℤ) (r : Request) : App σ × Reply :=
  if r.host ≠ a.host then (a, .error 403 "unexpected Host")
  else if r.origin ≠ "" ∧ r.origin ≠ "http://" ++ a.host then (a, .error 403 "foreign origin")
  else if r.site = "cross-site" then (a, .error 403 "cross-site request")
  else if r.method = "GET" then (a, a.get r.path)
  else if r.method ≠ "POST" ∨ r.path ≠ "/api/advance" ∧ r.path ≠ "/api/reset" then
    (a, .error 405 "method or route not allowed")
  else if r.token ≠ a.token then (a, .error 403 "missing session token")
  else if r.contentType ≠ "application/json" then (a, .error 415 "expected application/json")
  else match readCommand r.body with
    | .error text => (a, .error 400 text)
    | .ok step => a.command api now r.path step

/-- The progress callback of the worker. -/
def App.progress (a : App σ) (phase : String) : App σ :=
  { a with state := { a.state with phase := phase } }

/-- The end of `advance`: the view is taken from the engine. -/
def App.finish (a : App σ) (step : ℕ) (engine : σ) (error : Option String) : App σ :=
  let v : View := ⟨api.snapshot engine, steps, step, false, 0, "步骤完成", "", a.token⟩
  match error with
  | some text =>
      { a with
        engine := engine, worker := none
        state := { v with error := text, phase := "运行中止，请重新开始" } }
  | none =>
      if step + 1 = steps.length then
        { a with
          engine := engine, worker := none, bundle := api.bundle engine
          state := { v with next := step + 1, phase := "演示完成" } }
      else { a with engine := engine, worker := none, state := { v with next := step + 1 } }

/-! ## Runs -/

/-- Requests arrive at any time; a worker reports progress and ends with any engine. -/
inductive Event (σ : Type) where
  | request (now : ℤ) (r : Request)
  | progress (phase : String)
  | finished (engine : σ) (error : Option String)

/-- What a run does to the engine. -/
inductive Call where
  | wiped
  | began (step : ℕ)
  | ended (step : ℕ) (error : Option String)
deriving Repr, DecidableEq

/-- The calls that an answer stands for. -/
def App.called (a : App σ) : Reply → List Call
  | .noContent => [.wiped]
  | .accepted => [.began a.state.next]
  | _ => []

/-- One event, with what it does to the engine. Without a worker its events do not occur. -/
def App.step (a : App σ) : Event σ → App σ × List Call
  | .request now r => ((a.serveHTTP api now r).1, a.called (a.serveHTTP api now r).2)
  | .progress phase => if a.worker = none then (a, []) else (a.progress phase, [])
  | .finished engine error =>
      match a.worker with
      | none => (a, [])
      | some n => (a.finish api n engine error, [.ended n error])

/-- A run, and everything it did to the engine. -/
def App.run : App σ → List (Event σ) → App σ × List Call
  | a, [] => (a, [])
  | a, e :: events =>
      let (a, calls) := a.step api e
      let (a, more) := App.run a events
      (a, calls ++ more)

/-! ## The scenario -/

/-- Where a scenario stands: before step `n`, in it, or stopped by its failure. -/
inductive Stage where
  | ready (n : ℕ)
  | running (n : ℕ)
  | failed (n : ℕ)
deriving Repr, DecidableEq

/-- The scenario as an automaton: the steps in order and one at a time, nothing but a reset
after a failure, and no reset while a step runs. A failure is seen by its text, so a step
that fails with an empty one may be started again. -/
def Stage.next : Stage → Call → Option Stage
  | .ready n, .began m => if m = n ∧ n < steps.length then some (.running n) else none
  | .running n, .ended m error =>
      if m = n then
        match error with
        | none => some (.ready (n + 1))
        | some text => if text = "" then some (.ready n) else some (.failed n)
      else none
  | .ready _, .wiped => some (.ready 0)
  | .failed _, .wiped => some (.ready 0)
  | _, _ => none

/-- Step `n` begun `t` times, each time ended with an empty error text. -/
def blankTries (n t : ℕ) : List Call :=
  (List.replicate t [Call.began n, .ended n (some "")]).flatten

/-- The steps below `n`, each ended well after its `tries` with an empty error text. -/
def doneSteps (tries : ℕ → ℕ) (n : ℕ) : List Call :=
  (List.range n).flatMap fun i => blankTries i (tries i) ++ [.began i, .ended i none]

/-- What has happened since the last reset. -/
def Stage.Script (s : Stage) (calls : List Call) : Prop :=
  ∃ tries : ℕ → ℕ, match s with
    | .ready n => calls = doneSteps tries n ++ blankTries n (tries n)
    | .running n => calls = doneSteps tries n ++ blankTries n (tries n) ++ [.began n]
    | .failed n => ∃ text, text ≠ "" ∧
        calls = doneSteps tries n ++ blankTries n (tries n) ++ [.began n, .ended n (some text)]

/-- The scenario has eight steps. -/
def Stage.Valid : Stage → Prop
  | .ready n => n ≤ steps.length
  | .running n => n < steps.length
  | .failed n => n < steps.length

/-- What a run did since its last reset. -/
def sinceReset (calls : List Call) : List Call :=
  calls.foldl (fun acc c => if c = .wiped then [] else acc ++ [c]) []

/-- A step that ended well. -/
def Call.endedWell : Call → Bool
  | .ended _ none => true
  | _ => false

/-- How many steps ended well. -/
def completed (calls : List Call) : ℕ := calls.countP Call.endedWell

/-- A step failed with an error text. -/
def HasFailed (calls : List Call) : Prop := ∃ n text, text ≠ "" ∧ Call.ended n (some text) ∈ calls

/-- The step that is next, or runs, or failed. -/
def Stage.index : Stage → ℕ
  | .ready n => n
  | .running n => n
  | .failed n => n

/-- What the automaton can do. -/
theorem Stage.next_cases {s s' : Stage} {c : Call} (h : s.next c = some s') :
    c = .wiped ∧ s' = .ready 0 ∨
    (∃ n, n < steps.length ∧ s = .ready n ∧ c = .began n ∧ s' = .running n) ∨
    (∃ n, s = .running n ∧ c = .ended n none ∧ s' = .ready (n + 1)) ∨
    (∃ n, s = .running n ∧ c = .ended n (some "") ∧ s' = .ready n) ∨
    ∃ n text, text ≠ "" ∧ s = .running n ∧ c = .ended n (some text) ∧ s' = .failed n := by
  cases s with
  | ready n =>
      cases c with
      | wiped => exact .inl ⟨rfl, by simpa [next] using h.symm⟩
      | began m =>
          obtain ⟨⟨rfl, hn⟩, rfl⟩ : (m = n ∧ n < steps.length) ∧ Stage.running n = s' := by
            simpa [next] using h
          exact .inr (.inl ⟨m, hn, rfl, rfl, rfl⟩)
      | ended m error => simp [next] at h
  | running n =>
      cases c with
      | ended m error =>
          have hm : m = n := by
            by_contra hne
            simp [next, hne] at h
          subst hm
          cases error with
          | none => exact .inr (.inr (.inl ⟨m, rfl, rfl, by simpa [next] using h.symm⟩))
          | some text =>
              by_cases htext : text = ""
              · subst htext
                exact .inr (.inr (.inr (.inl ⟨m, rfl, rfl, by simpa [next] using h.symm⟩)))
              · exact .inr (.inr (.inr (.inr ⟨m, text, htext, rfl, rfl, by
                  simpa [next, htext] using h.symm⟩)))
      | wiped => simp [next] at h
      | began m => simp [next] at h
  | failed n =>
      cases c with
      | wiped => exact .inl ⟨rfl, by simpa [next] using h.symm⟩
      | began m => simp [next] at h
      | ended m error => simp [next] at h

theorem blankTries_succ (n t : ℕ) :
    blankTries n (t + 1) = blankTries n t ++ [.began n, .ended n (some "")] := by
  simp [blankTries, List.replicate_succ']

theorem doneSteps_succ (tries : ℕ → ℕ) (n : ℕ) :
    doneSteps tries (n + 1) =
      doneSteps tries n ++ blankTries n (tries n) ++ [.began n, .ended n none] := by
  simp [doneSteps, List.range_succ]

/-- Only the tries of the steps below `n` count. -/
theorem doneSteps_update (tries : ℕ → ℕ) {n m : ℕ} (h : n ≤ m) (t : ℕ) :
    doneSteps (Function.update tries m t) n = doneSteps tries n := by
  refine List.flatMap_congr fun i hi => ?_
  have : i ≠ m := by
    have := List.mem_range.1 hi
    omega
  rw [Function.update_of_ne this]

/-- What a stage says about the calls since the last reset. -/
structure Stage.Tells (s : Stage) (calls : List Call) : Prop where
  valid : s.Valid
  script : s.Script calls
  completed : completed calls = s.index
  failed : HasFailed calls ↔ ∃ n, s = .failed n

theorem Stage.tells_start : (Stage.ready 0).Tells [] where
  valid := Nat.zero_le _
  script := ⟨fun _ => 0, rfl⟩
  completed := rfl
  failed := by simp [HasFailed]

theorem completed_concat (calls : List Call) (c : Call) :
    completed (calls ++ [c]) = completed calls + if c.endedWell then 1 else 0 := by
  simp [completed, List.countP_append, List.countP_singleton]

theorem hasFailed_concat {calls : List Call} {c : Call} :
    HasFailed (calls ++ [c]) ↔ HasFailed calls ∨ ∃ n text, text ≠ "" ∧ c = .ended n (some text) := by
  simp only [HasFailed, List.mem_append, List.mem_singleton]
  constructor
  · rintro ⟨n, text, htext, hmem | heq⟩
    · exact .inl ⟨n, text, htext, hmem⟩
    · exact .inr ⟨n, text, htext, heq.symm⟩
  · rintro (⟨n, text, htext, hmem⟩ | ⟨n, text, htext, heq⟩)
    · exact ⟨n, text, htext, .inl hmem⟩
    · exact ⟨n, text, htext, .inr heq.symm⟩

/-- One call more. -/
theorem Stage.Tells.next {s s' : Stage} {calls : List Call} {c : Call} (h : s.Tells calls)
    (hnext : s.next c = some s') : s'.Tells (if c = .wiped then [] else calls ++ [c]) := by
  obtain ⟨hvalid, ⟨tries, hscript⟩, hcompleted, hfailed⟩ := h
  rcases next_cases hnext with ⟨rfl, rfl⟩ | ⟨n, hn, rfl, rfl, rfl⟩ | ⟨n, rfl, rfl, rfl⟩ |
    ⟨n, rfl, rfl, rfl⟩ | ⟨n, text, htext, rfl, rfl, rfl⟩
  · exact tells_start
  · rw [if_neg (by simp)]
    refine ⟨hn, ⟨tries, by rw [hscript]⟩, ?_, ?_⟩
    · simpa [completed_concat, Call.endedWell, index] using hcompleted
    · simpa [hasFailed_concat] using hfailed
  · rw [if_neg (by simp)]
    refine ⟨hvalid, ⟨Function.update tries (n + 1) 0, ?_⟩, ?_, ?_⟩
    · -- the next step has not been tried
      dsimp only
      rw [doneSteps_update tries le_rfl, doneSteps_succ, Function.update_self, hscript]
      simp [blankTries]
    · simpa [completed_concat, Call.endedWell, index] using hcompleted
    · simpa [hasFailed_concat] using hfailed
  · rw [if_neg (by simp)]
    refine ⟨hvalid.le, ⟨Function.update tries n (tries n + 1), ?_⟩, ?_, ?_⟩
    · dsimp only
      rw [doneSteps_update tries le_rfl, Function.update_self, blankTries_succ, hscript]
      simp
    · simpa [completed_concat, Call.endedWell, index] using hcompleted
    · simpa [hasFailed_concat] using hfailed
  · rw [if_neg (by simp)]
    refine ⟨hvalid, ⟨tries, text, htext, by rw [hscript]; simp⟩, ?_, ?_⟩
    · simpa [completed_concat, Call.endedWell, index] using hcompleted
    · simp [hasFailed_concat, htext]

/-- The automaton over several calls. -/
def Stage.after (s : Stage) (calls : List Call) : Option Stage := calls.foldlM Stage.next s

theorem Stage.Tells.after {calls done : List Call} {s s' : Stage} (h : s.Tells done)
    (hafter : s.after calls = some s') :
    s'.Tells (calls.foldl (fun acc c => if c = .wiped then [] else acc ++ [c]) done) := by
  induction calls generalizing s done with
  | nil =>
      obtain rfl : s = s' := by simpa [Stage.after] using hafter
      exact h
  | cons c calls ih =>
      simp only [Stage.after, List.foldlM_cons, Option.bind_eq_bind, Option.bind_eq_some_iff]
        at hafter
      obtain ⟨m, hm, hrest⟩ := hafter
      exact ih (h.next hm) hrest

/-- The step of the running worker. -/
def Stage.worker : Stage → Option ℕ
  | .running n => some n
  | _ => none

/-- What the view, the worker and the evidence are at a stage. -/
structure App.Shows (a : App σ) (s : Stage) : Prop where
  worker : a.worker = s.worker
  busy : a.state.busy = a.worker.isSome
  next : a.state.next = s.index
  error : a.state.error ≠ "" ↔ ∃ n, s = .failed n
  bundle : a.bundle = if s = .ready steps.length then api.bundle a.engine else []

/-- An application at a stage goes on to another with these calls. -/
def App.Goes (s : Stage) (out : App σ × List Call) : Prop :=
  ∃ s', s.after out.2 = some s' ∧ out.1.Shows api s'

variable {api}

theorem App.Shows.stays {a : App σ} {s : Stage} (h : a.Shows api s) : App.Goes api s (a, []) :=
  ⟨s, rfl, h⟩

theorem App.Shows.reset {a : App σ} {s : Stage} (h : a.Shows api s) (hbusy : a.state.busy = false) :
    App.Goes api s (a.reset api, [.wiped]) := by
  have hworker : a.worker = none := by simpa [hbusy] using h.busy.symm
  refine ⟨.ready 0, ?_, ⟨hworker, ?_, rfl, ?_, ?_⟩⟩
  · cases s with
    | ready n => rfl
    | running n => exact absurd h.worker (by simp [hworker, Stage.worker])
    | failed n => rfl
  · simp [App.reset, hworker, initialView]
  · simp [App.reset, initialView]
  · simp [App.reset, steps]

theorem App.Shows.start {a : App σ} {s : Stage} (h : a.Shows api s) (now : ℤ)
    (hbusy : a.state.busy = false) (hnext : a.state.next < steps.length)
    (herror : a.state.error = "") :
    App.Goes api s (a.start now, [.began a.state.next]) := by
  have hworker : a.worker = none := by simpa [hbusy] using h.busy.symm
  cases s with
  | running n => exact absurd h.worker (by simp [hworker, Stage.worker])
  | failed n => exact absurd herror (h.error.2 ⟨n, rfl⟩)
  | ready n =>
      obtain rfl : a.state.next = n := h.next
      refine ⟨.running a.state.next, by simp [Stage.after, Stage.next, hnext], ⟨rfl, rfl, rfl, ?_, ?_⟩⟩
      · simp [App.start, herror]
      · have := h.bundle
        rw [if_neg (by simpa using hnext.ne)] at this
        simpa [App.start] using this

theorem App.Shows.finish {a : App σ} {n : ℕ} {s : Stage} (h : a.Shows api s)
    (hworker : a.worker = some n) (hs : s.Valid) (engine : σ) (error : Option String) :
    App.Goes api s (a.finish api n engine error, [.ended n error]) := by
  cases s with
  | ready m => exact absurd (hworker.symm.trans h.worker) (by simp [Stage.worker])
  | failed m => exact absurd (hworker.symm.trans h.worker) (by simp [Stage.worker])
  | running m =>
      obtain rfl : n = m := by simpa [Stage.worker] using hworker.symm.trans h.worker
      have hbundle : a.bundle = [] := h.bundle
      have hn : n < steps.length := hs
      cases error with
      | some text =>
          by_cases htext : text = ""
          · -- the view does not show this failure, so the step may run again
            subst htext
            refine ⟨.ready n, by simp [Stage.after, Stage.next], ⟨rfl, rfl, rfl, ?_, ?_⟩⟩
            · simp [App.finish]
            · simp [App.finish, hbundle, hn.ne]
          · refine ⟨.failed n, by simp [Stage.after, Stage.next, htext], ⟨rfl, rfl, rfl, ?_, ?_⟩⟩
            · simp [App.finish, htext]
            · simp [App.finish, hbundle]
      | none =>
          refine ⟨.ready (n + 1), by simp [Stage.after, Stage.next], ?_⟩
          by_cases hlast : n + 1 = steps.length
          · simp only [App.finish, if_pos hlast]
            exact ⟨rfl, rfl, rfl, by simp, by simp [hlast]⟩
          · simp only [App.finish, if_neg hlast]
            exact ⟨rfl, rfl, rfl, by simp, by simp [hlast, hbundle]⟩

/-- The lock is held: only a reset and an accepted step change anything. -/
theorem App.Shows.command {a : App σ} {s : Stage} (h : a.Shows api s) (now : ℤ) (path : String)
    (step : Option ℤ) :
    App.Goes api s ((a.command api now path step).1, a.called (a.command api now path step).2) := by
  unfold App.command
  by_cases hbusy : a.state.busy = true
  · rw [if_pos hbusy]
    exact h.stays
  rw [if_neg hbusy]
  rw [Bool.not_eq_true] at hbusy
  by_cases hpath : path = "/api/reset"
  · rw [if_pos hpath]
    by_cases hstep : step ≠ none
    · rw [if_pos hstep]
      exact h.stays
    · rw [if_neg hstep]
      exact h.reset hbusy
  · rw [if_neg hpath]
    by_cases hnot : step ≠ some (a.state.next : ℤ) ∨ steps.length ≤ a.state.next ∨ a.state.error ≠ ""
    · rw [if_pos hnot]
      exact h.stays
    · rw [if_neg hnot]
      simp only [not_or, not_not, not_le] at hnot
      exact h.start now hbusy hnot.2.1 hnot.2.2

/-- The request comes from this host and from no other page. -/
structure App.Trusts (a : App σ) (r : Request) : Prop where
  host : r.host = a.host
  origin : r.origin = "" ∨ r.origin = "http://" ++ a.host
  site : r.site ≠ "cross-site"

/-- The request may give a command: it also has the session token and the right type. -/
structure App.Authorizes (a : App σ) (r : Request) : Prop extends a.Trusts r where
  method : r.method = "POST"
  path : r.path = "/api/advance" ∨ r.path = "/api/reset"
  token : r.token = a.token
  contentType : r.contentType = "application/json"

/-- What a request can do: an error, a page for a trusted reader, or a command. -/
theorem App.serveHTTP_cases (api : Engine σ) (a : App σ) (now : ℤ) (r : Request) :
    (∃ status text, a.serveHTTP api now r = (a, .error status text) ∧
      ¬ (a.Trusts r ∧ r.method = "GET") ∧
      ¬ (a.Authorizes r ∧ ∃ step, readCommand r.body = .ok step)) ∨
    (a.Trusts r ∧ r.method = "GET" ∧ a.serveHTTP api now r = (a, a.get r.path)) ∨
    ∃ step, a.Authorizes r ∧ readCommand r.body = .ok step ∧
      a.serveHTTP api now r = a.command api now r.path step := by
  unfold App.serveHTTP
  by_cases hhost : r.host = a.host
  swap
  · rw [if_pos hhost]
    exact .inl ⟨_, _, rfl, fun h => hhost h.1.host, fun h => hhost h.1.host⟩
  rw [if_neg (not_not.2 hhost)]
  by_cases horigin : r.origin ≠ "" ∧ r.origin ≠ "http://" ++ a.host
  · rw [if_pos horigin]
    refine .inl ⟨_, _, rfl, fun h => ?_, fun h => ?_⟩
    · exact h.1.origin.elim horigin.1 horigin.2
    · exact h.1.origin.elim horigin.1 horigin.2
  rw [if_neg horigin]
  by_cases hsite : r.site = "cross-site"
  · rw [if_pos hsite]
    exact .inl ⟨_, _, rfl, fun h => h.1.site hsite, fun h => h.1.site hsite⟩
  rw [if_neg hsite]
  have htrusts : a.Trusts r := ⟨hhost, by tauto, hsite⟩
  by_cases hget : r.method = "GET"
  · rw [if_pos hget]
    exact .inr (.inl ⟨htrusts, hget, rfl⟩)
  rw [if_neg hget]
  by_cases hroute : r.method ≠ "POST" ∨ r.path ≠ "/api/advance" ∧ r.path ≠ "/api/reset"
  · rw [if_pos hroute]
    refine .inl ⟨_, _, rfl, fun h => hget h.2, fun h => ?_⟩
    exact hroute.elim (fun hm => hm h.1.method) fun hp => h.1.path.elim hp.1 hp.2
  rw [if_neg hroute]
  by_cases htoken : r.token = a.token
  swap
  · rw [if_pos htoken]
    exact .inl ⟨_, _, rfl, fun h => hget h.2, fun h => htoken h.1.token⟩
  rw [if_neg (not_not.2 htoken)]
  by_cases htype : r.contentType = "application/json"
  swap
  · rw [if_pos htype]
    exact .inl ⟨_, _, rfl, fun h => hget h.2, fun h => htype h.1.contentType⟩
  rw [if_neg (not_not.2 htype)]
  cases hcommand : readCommand r.body with
  | error text => exact .inl ⟨_, _, rfl, fun h => hget h.2, fun h => by simp at h⟩
  | ok step =>
      exact .inr (.inr ⟨step, ⟨htrusts, by tauto, by tauto, htoken, htype⟩, rfl, rfl⟩)

/-- A page is no command. -/
theorem App.called_get (a : App σ) (path : String) : a.called (a.get path) = [] := by
  unfold App.get
  split_ifs <;> rfl

theorem App.Shows.serveHTTP {a : App σ} {s : Stage} (h : a.Shows api s) (now : ℤ) (r : Request) :
    App.Goes api s ((a.serveHTTP api now r).1, a.called (a.serveHTTP api now r).2) := by
  rcases a.serveHTTP_cases api now r with
    ⟨status, text, heq, -, -⟩ | ⟨-, -, heq⟩ | ⟨step, -, -, heq⟩
  · rw [heq]
    exact h.stays
  · rw [heq, App.called_get]
    exact h.stays
  · rw [heq]
    exact h.command now r.path step

theorem App.Shows.step {a : App σ} {s : Stage} (h : a.Shows api s) (hs : s.Valid) (e : Event σ) :
    App.Goes api s (a.step api e) := by
  cases e with
  | request now r => exact h.serveHTTP now r
  | progress phase =>
      simp only [App.step]
      split_ifs
      · exact h.stays
      · -- only the text of the phase changes
        exact ⟨s, rfl, h.worker, h.busy, h.next, h.error, h.bundle⟩
  | finished engine error =>
      simp only [App.step]
      cases hworker : a.worker with
      | none => exact h.stays
      | some n => exact h.finish hworker hs engine error

/-- A run shows a stage that tells what it did. -/
theorem App.Shows.run {a : App σ} {s : Stage} {done : List Call} (h : a.Shows api s)
    (htells : s.Tells done) (events : List (Event σ)) : App.Goes api s (a.run api events) := by
  induction events generalizing a s done with
  | nil => exact h.stays
  | cons e events ih =>
      obtain ⟨m, hm, hshows⟩ := h.step htells.valid e
      obtain ⟨s', hs', hfinal⟩ := ih hshows (htells.after hm)
      refine ⟨s', ?_, hfinal⟩
      simp only [App.run, Stage.after, List.foldlM_append]
      change (s.after _ >>= fun m => m.after _) = _
      rw [hm]
      exact hs'

theorem newApp_shows (host token : String) : (newApp api host token).Shows api (.ready 0) := by
  refine ⟨rfl, rfl, rfl, ?_, ?_⟩
  · simp [newApp, initialView]
  · simp [newApp, steps]

/-- Where a run stands, and what it did since its last reset. -/
theorem exists_stage (api : Engine σ) (host token : String) (events : List (Event σ)) :
    ∃ s : Stage, s.Tells (sinceReset ((newApp api host token).run api events).2) ∧
      ((newApp api host token).run api events).1.Shows api s := by
  obtain ⟨s, hs, hshows⟩ := (newApp_shows host token).run Stage.tells_start events
  exact ⟨s, Stage.tells_start.after hs, hshows⟩

/-! ## Which bodies are commands -/

/-- The step that a JSON value gives. -/
def stepOf : Json → Option (Option ℤ)
  | .null => decodeStep .null
  | .number literal => decodeStep (.number literal)
  | _ => none

/-- The command a body spells: an object without members, or with the one member `step`. -/
def Commands (body : String) (step : Option ℤ) : Prop :=
  body.utf8ByteSize ≤ bodyLimit ∧
    (Json.parse body.toList = some (.object []) ∧ step = none ∨
      ∃ v, Json.parse body.toList = some (.object [("step", v)]) ∧ stepOf v = some step)

/-- Behind the first field only the end of the object is read. -/
theorem actionFields_seen {step step' : Option ℤ} {ls rest : List Lexeme} :
    actionFields true step ls = some (step', rest) ↔ ls = .closeBrace :: rest ∧ step = step' := by
  unfold actionFields
  split
  next => simp [and_comm]
  next => simp
  next hnot _ =>
    simp only [reduceCtorEq, false_iff, not_and]
    exact fun heq => absurd heq (hnot rest)

/-- A lexeme that gives a step is a whole value. -/
theorem exists_value_of_decodeStep {l : Lexeme} {step : Option ℤ} (h : decodeStep l = some step) :
    ∃ v : Json, v.lexemes = [l] ∧ stepOf v = some step := by
  cases l with
  | null => exact ⟨.null, by simp [Json.lexemes], h⟩
  | number literal => exact ⟨.number literal, by simp [Json.lexemes], h⟩
  | _ => simp [decodeStep] at h

/-- The lexemes of a value that gives a step. -/
theorem lexemes_of_stepOf {v : Json} {step : Option ℤ} (h : stepOf v = some step) :
    ∃ l, v.lexemes = [l] ∧ decodeStep l = some step := by
  cases v with
  | null => exact ⟨.null, by simp [Json.lexemes], h⟩
  | number literal => exact ⟨.number literal, by simp [Json.lexemes], h⟩
  | _ => simp [stepOf] at h

theorem decodeAction_eq_some {ls : List Lexeme} {step : Option ℤ} :
    decodeAction ls = some (step, []) ↔
      ls = (Json.object []).lexemes ∧ step = none ∨
        ∃ v, ls = (Json.object [("step", v)]).lexemes ∧ stepOf v = some step := by
  constructor
  · intro h
    unfold decodeAction at h
    split at h
    next rest =>
      unfold actionFields at h
      split at h
      next rest' =>
        obtain ⟨rfl, rfl⟩ : none = step ∧ rest' = [] := by simpa using h
        exact .inl ⟨by simp [Json.lexemes, memberLexemes], rfl⟩
      next key value rest' =>
        split at h
        next => simp at h
        next hkey =>
          split at h
          next read hread =>
            obtain ⟨rfl, rfl⟩ := actionFields_seen.1 h
            obtain ⟨v, hv, hstep⟩ := exists_value_of_decodeStep hread
            obtain rfl : key = "step" := by
              by_contra hne
              exact hkey (.inl hne)
            exact .inr ⟨v, by simp [Json.lexemes, memberLexemes, hv], hstep⟩
          next => simp at h
      next => simp at h
    next => simp at h
  · rintro (⟨rfl, rfl⟩ | ⟨v, rfl, hstep⟩)
    · simp [Json.lexemes, memberLexemes, decodeAction, actionFields]
    · obtain ⟨l, hl, hread⟩ := lexemes_of_stepOf hstep
      have hend : actionFields true step [.closeBrace] = some (step, []) :=
        actionFields_seen.2 ⟨rfl, rfl⟩
      simp only [Json.lexemes, memberLexemes, hl, decodeAction, List.cons_append, List.nil_append]
      rw [actionFields]
      simp [hread, hend]

/-- A body is read as a command exactly if it is short enough and is, as JSON, that
command. -/
theorem readCommand_eq_ok {body : String} {step : Option ℤ} :
    readCommand body = .ok step ↔ Commands body step := by
  have hread : readCommand body = .ok step ↔
      decodeAction (bodyLexemes body).1 = some (step, []) ∧ (bodyLexemes body).2 = .eof := by
    unfold readCommand
    split
    next hnone => simp [hnone]
    next step' rest hsome =>
      rw [hsome]
      split
      next hrest => simp [hrest.1, hrest.2]
      next hrest =>
        simp only [reduceCtorEq, Option.some.injEq, Prod.mk.injEq, false_iff]
        exact fun h => hrest ⟨h.1.2, h.2⟩
  rw [hread, Commands, bodyLexemes]
  by_cases hsize : body.utf8ByteSize ≤ bodyLimit
  · rw [if_pos hsize]
    simp only [hsize, true_and, Json.parse_eq_some, ← readLexemes_eof_iff]
    rw [decodeAction_eq_some]
    obtain ⟨ls, ending⟩ := readLexemes endOfText .idle body.toList
    simp only [Prod.mk.injEq]
    constructor
    · rintro ⟨⟨rfl, rfl⟩ | ⟨v, rfl, hstep⟩, rfl⟩
      · exact .inl ⟨⟨rfl, rfl⟩, rfl⟩
      · exact .inr ⟨v, ⟨rfl, rfl⟩, hstep⟩
    · rintro (⟨⟨rfl, rfl⟩, rfl⟩ | ⟨v, ⟨rfl, rfl⟩, hstep⟩)
      · exact ⟨.inl ⟨rfl, rfl⟩, rfl⟩
      · exact ⟨.inr ⟨v, rfl, hstep⟩, rfl⟩
  · rw [if_neg hsize]
    simp [readLexemes_cutOff, hsize]

/-! ## What the server does -/

/-- A command is taken only without a worker. -/
theorem App.command_busy {a : App σ} (hworker : a.state.busy = true) (now : ℤ) (path : String)
    (step : Option ℤ) :
    a.command api now path step = (a, .error 409 "a step is already running") :=
  if_pos hworker

theorem App.Shows.command_accepted {a : App σ} {s : Stage} (h : a.Shows api s) (now : ℤ)
    (path : String) (step : Option ℤ) :
    (a.command api now path step).2 = .accepted ↔
      path ≠ "/api/reset" ∧ ∃ n, n < steps.length ∧ s = .ready n ∧ step = some (n : ℤ) := by
  cases s with
  | running n =>
      have hbusy : a.state.busy = true := by rw [h.busy, h.worker]; rfl
      simp [App.command_busy hbusy]
  | failed n =>
      have herror : a.state.error ≠ "" := h.error.2 ⟨n, rfl⟩
      simp only [App.command]
      split_ifs <;> simp_all
  | ready n =>
      have hbusy : a.state.busy = false := by rw [h.busy, h.worker]; rfl
      have herror : a.state.error = "" := by
        by_contra hne
        obtain ⟨m, hm⟩ := h.error.1 hne
        cases hm
      obtain rfl : a.state.next = n := h.next
      simp only [App.command, hbusy, herror, Bool.false_eq_true, if_false, ne_eq, not_true_eq_false,
        or_false]
      by_cases hpath : path = "/api/reset"
      · rw [if_pos hpath]
        split_ifs <;> simp [hpath]
      · rw [if_neg hpath]
        by_cases hgo : step = some (a.state.next : ℤ) ∧ a.state.next < steps.length
        · rw [if_neg (by simpa using hgo)]
          simp [hpath, hgo.1, hgo.2]
        · rw [if_pos (by rw [not_and_or] at hgo; simpa using hgo)]
          simp only [reduceCtorEq, false_iff]
          rintro ⟨-, n, hn, heq, hstep⟩
          obtain rfl : a.state.next = n := by simpa using heq
          exact hgo ⟨hstep, hn⟩

theorem App.Shows.command_noContent {a : App σ} {s : Stage} (h : a.Shows api s) (now : ℤ)
    (path : String) (step : Option ℤ) :
    (a.command api now path step).2 = .noContent ↔
      path = "/api/reset" ∧ step = none ∧ a.worker = none := by
  have hworker : a.worker = none ↔ a.state.busy = false := by
    rw [h.busy]
    simp
  simp only [App.command, hworker]
  split_ifs <;> simp_all

/-- A command changes nothing unless it is answered as one. -/
theorem App.command_kept (a : App σ) (now : ℤ) (path : String) (step : Option ℤ) :
    (a.command api now path step).2 = .accepted ∨ (a.command api now path step).2 = .noContent ∨
      (a.command api now path step).1 = a := by
  simp only [App.command]
  split_ifs <;> simp

theorem App.command_ne_zip (a : App σ) (now : ℤ) (path : String) (step : Option ℤ)
    (z : List UInt8) : (a.command api now path step).2 ≠ .zip z := by
  simp only [App.command]
  split_ifs <;> simp

theorem App.get_eq_zip {a : App σ} {path : String} {z : List UInt8} :
    a.get path = .zip z ↔ path = "/api/export" ∧ z = a.bundle ∧ z ≠ [] := by
  unfold App.get
  by_cases hpath : path = "/api/export"
  · subst hpath
    by_cases hempty : a.bundle = []
    · simp [hempty]
    · rw [if_neg (by decide), if_pos rfl, if_neg hempty]
      simp only [Reply.zip.injEq, true_and]
      constructor
      · rintro rfl
        exact ⟨rfl, hempty⟩
      · exact fun hz => hz.1.symm
  · rw [if_neg hpath]
    split_ifs <;> simp [hpath]

theorem App.get_ne_command (a : App σ) (path : String) :
    a.get path ≠ .accepted ∧ a.get path ≠ .noContent := by
  unfold App.get
  split_ifs <;> simp

variable (api)

/-- Over every run, in every interleaving of requests with the worker: since the last
reset the steps ran in order, one at a time, each until it ended well or failed, where only
a failure with an empty text lets a step run again; the view, the busy flag and the
evidence say exactly that; and while a worker runs no request changes anything. -/
theorem demo_steps_in_order (host token : String) (events : List (Event σ)) :
    ∃ s : Stage, s.Valid ∧ s.Script (sinceReset ((newApp api host token).run api events).2) ∧
      ((newApp api host token).run api events).1.Shows api s ∧
      (s.worker ≠ none → ∀ now r,
        (((newApp api host token).run api events).1.serveHTTP api now r).1 =
          ((newApp api host token).run api events).1) := by
  obtain ⟨s, htells, hshows⟩ := exists_stage api host token events
  refine ⟨s, htells.valid, htells.script, hshows, fun hworker now r => ?_⟩
  have hbusy : ((newApp api host token).run api events).1.state.busy = true := by
    rw [hshows.busy, hshows.worker]
    exact Option.isSome_iff_ne_none.2 hworker
  rcases App.serveHTTP_cases api ((newApp api host token).run api events).1 now r with
    ⟨status, text, heq, -, -⟩ | ⟨-, -, heq⟩ | ⟨step, -, -, heq⟩
  · rw [heq]
  · rw [heq]
  · rw [heq, App.command_busy hbusy]

/-- What a request can do, in every state a run can reach. A step is started exactly by an
authorised `advance`, while no worker runs and no step has failed with a text, whose body
is the JSON object that gives the number of the steps that ended well since the last reset;
the scenario is reset exactly by an authorised `reset` without a step and without a worker;
the evidence, unless it is empty, is given exactly to a trusted reader after all eight
steps, and is that of the engine that ran them; and every other request leaves the
application as it is. -/
theorem demo_requests_exact (host token : String) (events : List (Event σ)) (now : ℤ)
    (r : Request) :
    let out := (newApp api host token).run api events
    let answer := out.1.serveHTTP api now r
    (answer.2 = .accepted ↔ out.1.Authorizes r ∧ r.path = "/api/advance" ∧ out.1.worker = none ∧
      ¬ HasFailed (sinceReset out.2) ∧ completed (sinceReset out.2) < steps.length ∧
      Commands r.body (some (completed (sinceReset out.2) : ℤ))) ∧
    (answer.2 = .noContent ↔ out.1.Authorizes r ∧ r.path = "/api/reset" ∧
      Commands r.body none ∧ out.1.worker = none) ∧
    (∀ z, answer.2 = .zip z ↔ out.1.Trusts r ∧ r.method = "GET" ∧ r.path = "/api/export" ∧
      completed (sinceReset out.2) = steps.length ∧ z = api.bundle out.1.engine ∧ z ≠ []) ∧
    (answer.2 = .accepted ∨ answer.2 = .noContent ∨ answer.1 = out.1) := by
  intro out answer
  obtain ⟨s, htells, hshows⟩ := exists_stage api host token events
  change s.Tells (sinceReset out.2) at htells
  change out.1.Shows api s at hshows
  have hready : out.1.worker = none ∧ ¬ HasFailed (sinceReset out.2) ↔ s = .ready s.index := by
    rw [hshows.worker, htells.failed]
    cases s <;> simp [Stage.worker, Stage.index]
  rw [htells.completed]
  -- the evidence is there exactly after the last step
  have hlast : s = .ready steps.length ↔ s.index = steps.length := by
    have := htells.valid
    cases s <;> simp_all [Stage.index, Stage.Valid] <;> omega
  have hbundle : ∀ z, z = out.1.bundle ∧ z ≠ [] ↔
      s.index = steps.length ∧ z = api.bundle out.1.engine ∧ z ≠ [] := by
    intro z
    rw [hshows.bundle]
    by_cases hs : s.index = steps.length
    · simp [hlast, hs]
    · simp [hlast, hs]
  rcases App.serveHTTP_cases api out.1 now r with
    ⟨status, text, heq, hget, hcommand⟩ | ⟨htrusts, hmethod, heq⟩ | ⟨step, hauth, hread, heq⟩
  · -- an error: the request is no page for a trusted reader and no command
    rw [show answer = (out.1, .error status text) from heq]
    refine ⟨?_, ?_, fun z => ?_, .inr (.inr rfl)⟩
    · simp only [reduceCtorEq, false_iff]
      rintro ⟨hauth, -, -, -, -, hbody⟩
      exact hcommand ⟨hauth, _, readCommand_eq_ok.2 hbody⟩
    · simp only [reduceCtorEq, false_iff]
      rintro ⟨hauth, -, hbody, -⟩
      exact hcommand ⟨hauth, _, readCommand_eq_ok.2 hbody⟩
    · simp only [reduceCtorEq, false_iff]
      rintro ⟨htrusts, hmethod, -⟩
      exact hget ⟨htrusts, hmethod⟩
  · rw [show answer = (out.1, out.1.get r.path) from heq]
    have hnot : ¬ out.1.Authorizes r := fun hauth => by simpa [hmethod] using hauth.method
    refine ⟨?_, ?_, fun z => ?_, .inr (.inr rfl)⟩
    · simp [(out.1.get_ne_command r.path).1, hnot]
    · simp [(out.1.get_ne_command r.path).2, hnot]
    · simp only [App.get_eq_zip, htrusts, hmethod, true_and, hbundle]
  · rw [show answer = out.1.command api now r.path step from heq]
    have hpath : r.path ≠ "/api/reset" ↔ r.path = "/api/advance" := by
      rcases hauth.path with h | h <;> simp [h]
    have hbody : ∀ step', Commands r.body step' ↔ step = step' := fun step' => by
      rw [← readCommand_eq_ok, hread, Except.ok.injEq]
    refine ⟨?_, ?_, fun z => ?_, out.1.command_kept now r.path step⟩
    · rw [hshows.command_accepted, hpath]
      simp only [hauth, hbody, true_and]
      constructor
      · rintro ⟨hadvance, n, hn, rfl, hstep⟩
        obtain ⟨hworker, hfailed⟩ := hready.2 rfl
        exact ⟨hadvance, hworker, hfailed, hn, hstep⟩
      · rintro ⟨hadvance, hworker, hfailed, hn, hstep⟩
        exact ⟨hadvance, s.index, hn, hready.1 ⟨hworker, hfailed⟩, hstep⟩
    · rw [hshows.command_noContent]
      simp only [hauth, hbody, true_and]
    · have hnot : ¬ r.method = "GET" := by simp [hauth.method]
      simp [App.command_ne_zip, hnot]

end Demo

end Lktrs.NativeProof
