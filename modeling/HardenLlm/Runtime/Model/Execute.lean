import HardenLlm.Cachekey.Model
import HardenLlm.Common.Loop
import HardenLlm.Runtime.Model.Results
/-!
# The attempt loop

`Execute` of `execute.go` for calls without a recovery plan. What the
context, the clock, the executor and the cache answer is given attempt by
attempt; what the run did with the executor and the cache is kept in
order beside its record.
-/

namespace HardenLlm.Runtime

/-! ## The surroundings of a run -/

/-- `ctx.Err()`. -/
inductive ContextError
  | canceled
  | deadlineExceeded
  deriving DecidableEq, Repr

def ContextError.fault : ContextError → Fault
  | .canceled => .canceled
  | .deadlineExceeded => .deadlineExceeded

/-- A look at the context and the clock. -/
structure Reading where
  err : Option ContextError := none
  now : ℤ
  deriving DecidableEq, Repr

/-- The call's context is over. -/
def executionContextError (deadline : Option ℤ) (r : Reading) : Option Fault :=
  match r.err with
  | some e => some e.fault
  | none => if deadline.any (· ≤ r.now) then some .deadlineExceeded else none

variable {A : Type}

/-- **What a run is started with.** -/
structure Invocation (A : Type) where
  connection : Connection A
  credential : Credential
  call : Call A
  policy : Policy
  hasCache : Bool := false
  cacheMode : CacheMode := .off
  cacheVersion : String := ""
  callID : String := ""
  traceID : String := ""
  deadline : Option ℤ := none
  parseURL : String → Option URL

/-- The answers outside the attempts: of the context, the clock, `Prepare`,
the cache key and the cache. -/
structure Opening (A : Type) where
  entry : Reading
  started : ℤ
  prepared : Except Fault PreparedOperation
  hashed : Except Fault String
  cached : Except Fault (Option (CachedResult A))
  /-- The clock when the run ends. -/
  closed : ℤ

/-- **The answers during one attempt**, in the order in which they are
asked for. The next stage, if there is one, is prepared and looked up
after the attempt. -/
structure Round (A : Type) where
  entry : Reading
  started : ℤ
  /-- What the executor reports while the attempt runs. -/
  streamed : List StreamDiagnostics := []
  result : ProviderResult A
  failure : Option Fault
  finished : ℤ
  settled : Reading
  ended : ℤ
  /-- What writing to the cache returns. -/
  stored : Option Fault := none
  prepared : Except Fault PreparedOperation
  hashed : Except Fault String
  cached : Except Fault (Option (CachedResult A))
  random : Option ℚ := none
  /-- The clock when the delay is planned, and around the wait. -/
  planned : ℤ
  waitStarted : ℤ
  waited : Option Fault := none
  waitFinished : ℤ
  resumed : Reading

/-- A request handed to `Prepare`. -/
structure Preparation (A : Type) where
  branch : Branch
  stage : Stage
  connection : Connection A
  credential : Credential
  call : Call A

/-- An attempt: the request that was executed and what the call had used
before it, what came back, and the failure the runtime found. -/
structure Execution (A : Type) where
  number : ℕ
  branch : Branch
  stage : Stage
  connection : Connection A
  call : Call A
  prepared : PreparedOperation
  accumulator : ProviderAccumulator A
  output : Output
  failure : Option Fault

/-- **What a run does** with the executor and the cache. -/
inductive Action (A : Type)
  | prepare (p : Preparation A)
  | attempt (e : Execution A)
  | lookup (hash version : String)
  | store (hash version : String) (result : CachedResult A)

/-- The attempts among the actions. -/
def executions (actions : List (Action A)) : List (Execution A) :=
  actions.filterMap fun
    | .attempt e => some e
    | _ => none

/-- A run so far: its record, what was used, the number of its last
progress event, these events and the actions taken. -/
structure RunState (A : Type) where
  record : CallRecord A
  accumulator : ProviderAccumulator A
  progressSequence : ℕ := 0
  events : List ProgressEvent := []
  actions : List (Action A) := []

/-- **How a run ended.** -/
structure Ending (A : Type) where
  record : CallRecord A
  err : Option Fault
  events : List ProgressEvent
  actions : List (Action A)

section

variable [Amounts A]

/-- The record of a run that did not begin: Go's zero value, whose cache
mode is empty. -/
def zeroRecord : CallRecord A where
  callID := ""
  traceID := ""
  selectedTarget := ⟨"", "", "", "", ""⟩
  generationTarget := ⟨"", "", "", "", ""⟩
  accounting :=
    ⟨⟨{}, ⟨Amounts.zero, .unset, "", 0, 0⟩⟩, ⟨{}, ⟨Amounts.zero, .unset, "", 0, 0⟩⟩⟩
  cache := { mode := .off, version := "" }

end

namespace Invocation

variable (inv : Invocation A)

def version : String :=
  if inv.cacheVersion = "" then Cachekey.defaultVersion else inv.cacheVersion

variable [Amounts A]

/-- The record a run begins with. -/
def newRecord : CallRecord A where
  callID := inv.callID
  traceID := inv.traceID
  selectedTarget := targetFromConnection inv.connection inv.call.modelID
  generationTarget := targetFromConnection inv.connection inv.call.modelID
  accounting := ⟨emptyLedger, emptyLedger⟩
  cache := { mode := inv.cacheMode, version := inv.version }

/-- The record with the time the run has. -/
def timedRecord (started : ℤ) : CallRecord A :=
  let record := inv.newRecord
  match inv.deadline with
  | none => record
  | some deadline =>
    { record with diagnostics := { record.diagnostics with
        deadlineAt := some deadline
        effectiveTimeoutMS := some (max (Batch.milliseconds (deadline - started)) 0) } }

end Invocation

/-! ## Stop reasons -/

def stopReasonFor (err : Option Fault) : StopReason :=
  match err with
  | none => .succeeded
  | some f =>
    if f.isCanceled then .canceled
    else if f.isDeadline then .deadlineExceeded
    else match f.provider?.map (·.code) with
      | some "REPAIR_INPUT_LIMIT" => .repairInputLimitExceeded
      | some "RESPONSE_TOO_LARGE" => .responseLimitExceeded
      | _ => .terminalError

/-! ## Keeping the record -/

namespace RunState

variable (s : RunState A)

/-- One more action. -/
def act (a : Action A) : RunState A := { s with actions := s.actions ++ [a] }

/-- A progress event about this stage, if the caller takes them; `active`
is the stream of a running attempt. -/
def emit (inv : Invocation A) (stage : Stage) (branch : Branch) (connectionID reasoningEffort : String)
    (type : ProgressType) (attempt : ℕ) (active : StreamDiagnostics := {}) : RunState A :=
  if !inv.call.progress then s
  else
    { s with progressSequence := s.progressSequence + 1, events := s.events ++
      [{ sequence := s.progressSequence + 1
         type := type
         stage := stage
         branch := branch
         connectionID := connectionID
         reasoningEffort := reasoningEffort
         attempt := attempt
         attemptsUsed := s.record.attempts.length
         attemptsRemaining := max (inv.policy.maxAttempts - s.record.attempts.length) 0
         maxAttempts := inv.policy.maxAttempts
         stopReason := s.record.stopReason
         receivedBytes := s.record.diagnostics.receivedBytes + active.receivedBytes
         eventCount := s.record.diagnostics.eventCount + active.eventCount
         outputBytes := s.record.diagnostics.outputBytes + active.outputBytes
         outputCodePoints := s.record.diagnostics.outputCodePoints + active.outputCodePoints
         terminal := type = .terminal }] }

end RunState

namespace CallRecord

variable (r : CallRecord A)

/-- The transport's measurements are added up. -/
def measure (stream : StreamDiagnostics) : CallRecord A :=
  { r with diagnostics := { r.diagnostics with
      receivedBytes := r.diagnostics.receivedBytes + stream.receivedBytes
      eventCount := r.diagnostics.eventCount + stream.eventCount
      outputBytes := r.diagnostics.outputBytes + stream.outputBytes
      outputCodePoints := r.diagnostics.outputCodePoints + stream.outputCodePoints } }

/-- The first response that did not parse is kept. -/
def captureParseFailureResponse (raw : String) : CallRecord A :=
  if r.parseFailureResponse.isSome ∨ raw = "" then r
  else { r with parseFailureResponse := some (Json.obj [("rawResponse", .str raw),
    ("schemaVersion", .str "harden-llm.parse-failure.v1")]).encode }

/-- A cached result is the record's. -/
def serve (cached : CachedResult A) : CallRecord A :=
  { r with
    output := cached.providerResult.output
    search := cached.providerResult.search
    assistantText := cached.providerResult.assistantText
    accounting := { r.accounting with result := cached.providerResult.accounting }
    resultSource := .cache cached.producer
    cache := { r.cache with status := .hit, served := true } }

/-- An admitted result is the record's. -/
def succeed (result : ProviderResult A) (number : ℕ) (producer : ExecutionTarget) : CallRecord A :=
  { r with
    output := result.output
    search := result.search.or r.search
    accounting := { r.accounting with result := result.accounting }
    resultSource := .provider number producer }

/-- The record notes this branch's cache facts. -/
def noteCache (branch : Branch) (target : ExecutionTarget) : CallRecord A :=
  { r with diagnostics := { r.diagnostics with
      branchCaches := r.diagnostics.branchCaches ++ [⟨branch, target, r.cache⟩] } }

/-- The last attempt's wait. -/
def noteWait (delay : ℤ) (wait : WaitDiagnostics) : CallRecord A :=
  { r with
    attempts := r.attempts.dropLast ++ (r.attempts.getLast?.map fun a =>
      { a with delay := delay, waitDiagnostics := some wait }).toList
    diagnostics := { r.diagnostics with
      totalActualWait := r.diagnostics.totalActualWait + wait.actual } }

end CallRecord

/-- The stream is kept if it measured anything. -/
def StreamDiagnostics.noted (s : StreamDiagnostics) : Option StreamDiagnostics :=
  if 0 < s.receivedBytes ∨ 0 < s.eventCount ∨ 0 < s.outputBytes ∨ 0 < s.outputCodePoints
      ∨ s.terminalState ≠ "" then some s
  else none

/-- The raw response of a failure that did not parse. -/
def parseFailureResponse (failure : Option Fault) : Option String :=
  (failure.bind Fault.provider?).bind fun p =>
    if p.category ≠ some .parse ∨ p.rawResponse = "" then none else some p.rawResponse

/-- The deferred end of a run: the stop reason, the diagnostics and the
last event. -/
def RunState.finish (s : RunState A) (inv : Invocation A) (err : Option Fault) (branch : Branch)
    (elapsed : ℤ) (last : RunState A → RunState A) : Ending A :=
  let reason := s.record.stopReason.getD (stopReasonFor err)
  let record : CallRecord A :=
    { s.record with
      stopReason := some reason
      diagnostics := { s.record.diagnostics with
        attemptsUsed := s.record.attempts.length
        attemptsRemaining := max (inv.policy.maxAttempts - s.record.attempts.length) 0
        elapsed := max elapsed 0
        stage := s.record.attempts.getLast?.map (·.stage)
        branch := some branch
        stopReason := some reason } }
  let ended := last { s with record := record }
  ⟨record, err, ended.events, ended.actions⟩

/-! ## The simple loop -/

namespace Simple

variable [Amounts A] (inv : Invocation A)

/-- The simple loop's events are all about the original generation. -/
def emit (s : RunState A) (type : ProgressType) (attempt : ℕ) (active : StreamDiagnostics := {}) :
    RunState A :=
  s.emit inv .originalGenerate .original inv.connection.id inv.call.reasoningEffort type attempt
    active

/-- The text of a value that does not encode. -/
def marshalError : Fault := .plain "json: unsupported value"

/-- An admission failure, as it is reported, and the output that is
captured with it. -/
def admissionFailure (result : ProviderResult A) (callType : CallType) (f : Fault) :
    Fault × Option String :=
  if callType = .structured ∧ f.provider? = none then
    let schema : Fault := .provider { code := "STRUCTURED_SCHEMA", category := some .parse } f
    match result.output with
    | .none => (schema, some "null")
    | .text s => (schema, some (Json.quote s))
    | .value v => (schema, some v.encode)
    | .assistant content calls => (schema, some (assistantDocument content calls).encode)
    | .unencodable => (marshalError, none)
  else (f, none)

/-- The failure of a settled attempt once its result was looked at, and
the responses captured. -/
def judge (s : Settled A) : Option Fault × List String :=
  let admitted : Option Fault × List String :=
    match s.failure with
    | some f => (some f, [])
    | none =>
      match admitResult inv.parseURL s.result inv.call.callType inv.call.validateStructured with
      | none => (none, [])
      | some f =>
        let reported := admissionFailure s.result inv.call.callType f
        (some reported.1, reported.2.toList)
  (admitted.1, admitted.2 ++ (parseFailureResponse admitted.1).toList)

/-- What is kept between two attempts: how many were made, and the
request. -/
structure State (A : Type) where
  run : RunState A
  number : ℕ
  prepared : PreparedOperation

/-- The record of an attempt. -/
def attemptRecord (s : State A) (r : Round A) (result : ProviderResult A) (c : Classification) :
    AttemptRecord where
  number := s.number + 1
  connectionID := inv.connection.id
  target := targetFromPrepared inv.connection s.prepared
  providerUsed := result.providerDispatched
  classification := c
  duration := max 0 (r.ended - r.started)
  repair := inv.call.repair.isSome
  stage := .originalGenerate
  branch := .original
  startedAt := r.started
  finishedAt := r.finished
  reasoningEffort := inv.call.reasoningEffort
  stream := result.stream.noted

/-- A result was admitted: it is recorded, and written to the cache. -/
def admitted (run : RunState A) (r : Round A) (result : ProviderResult A) (number : ℕ)
    (target : ExecutionTarget) : RunState A :=
  let run := { run with record := run.record.succeed result number target }
  if inv.cacheMode = .off then run
  else
    let cached : CachedResult A :=
      { providerResult := { result with search := result.search.or run.record.search }
        producer := target, generationTarget := target, completedBy := .generation }
    let run := run.act (.store run.record.cache.operationHash inv.version cached)
    let cache := run.record.cache
    { run with record := { run.record with
        cache := if r.stored.isSome then { cache with status := .writeFailed }
          else { cache with written := true } } }

/-- The attempt is made: the executor runs, and its accounting is
settled. -/
def attempt (s : State A) (r : Round A) : RunState A × Settled A :=
  let run := r.streamed.foldl (fun run active => emit inv run .progress (s.number + 1) active) s.run
  let settled := settle inv.connection run.accumulator r.result r.failure
  let record := ({ run.record with assistantText := r.result.assistantText }).measure r.result.stream
  ({ run with
      accumulator := settled.accumulator
      record := { record with accounting := { record.accounting with
        provider := settled.accumulator.total } } }, settled)

/-- An attempt, recorded, with the failure it is found to have. -/
structure Tried (A : Type) where
  run : RunState A
  result : ProviderResult A
  failure : Option Fault
  classification : Classification

/-- The attempt is made, judged and recorded. A context that has ended
counts before anything else. -/
def tried (s : State A) (r : Round A) : Tried A :=
  let (run, settled) := attempt inv s r
  let (judged, captured) := judge inv settled
  let failure := (executionContextError inv.deadline r.settled).or judged
  let c := classify failure inv.policy
  let record := captured.foldl (·.captureParseFailureResponse ·) run.record
  let record := { record with
    attempts := record.attempts ++ [attemptRecord inv s r settled.result c] }
  let run := { run with record := record }.act (.attempt
    ⟨s.number + 1, .original, .originalGenerate, inv.connection, inv.call, s.prepared,
      s.run.accumulator, r.result.output, failure⟩)
  ⟨emit inv run .progress (s.number + 1), settled.result, failure, c⟩

/-- **One attempt of the simple loop.** -/
def body (s : State A) (r : Round A) : Turn (State A) (RunState A × Option Fault) :=
  match executionContextError inv.deadline r.entry with
  | some f => .stop (s.run, some f)
  | none =>
    let number := s.number + 1
    let t := tried inv s r
    match t.failure with
    | none =>
      .stop (admitted inv t.run r t.result number (targetFromPrepared inv.connection s.prepared),
        none)
    | some f =>
      if (number : ℤ) = inv.policy.maxAttempts ∨ t.classification.retryable = false then
        .stop (t.run, some f)
      else
        let c := t.classification
        let delay := delay number c.retryAfter inv.policy.backoff r.random
        if inv.deadline.any (fun deadline => deadline - r.planned ≤ delay) then
          .stop (t.run, some .deadlineExceeded)
        else
          let wait : WaitDiagnostics :=
            ⟨c.category, delay, max 0 (r.waitFinished - r.waitStarted), c.retryAfter⟩
          let run := { t.run with record := t.run.record.noteWait delay wait }
          match r.waited.or (executionContextError inv.deadline r.resumed) with
          | some f => .stop (run, some f)
          | none => .next { s with run := run, number := number }

/-- The call, with a memo for its searches. -/
def memoCall : Call A := if inv.call.webSearch then { inv.call with searchMemo := true } else inv.call

/-- The generation is prepared, and looked up in the cache. -/
def start (o : Opening A) : Turn (State A) (RunState A × Option Fault) :=
  let run : RunState A := ⟨inv.timedRecord o.started, newProviderAccumulator, 0, [], []⟩
  let run := emit inv run .started 0
  match executionContextError inv.deadline o.entry with
  | some f => .stop (run, some f)
  | none =>
    let run := run.act
      (.prepare ⟨.original, .originalGenerate, inv.connection, inv.credential, memoCall inv⟩)
    match o.prepared with
    | .error f => .stop (run, some f)
    | .ok prepared =>
      let prepared := withCacheDomain prepared inv.connection
      let target := targetFromPrepared inv.connection prepared
      let run := { run with record := { run.record with preparedOperation := some prepared } }
      if inv.cacheMode = .off then .next ⟨run, 0, prepared⟩
      else if !inv.hasCache then
        .stop (run, some (.plain "runtime cache is required when cache mode is active"))
      else match o.hashed with
        | .error f => .stop (run, some f)
        | .ok hash =>
          let cache := { run.record.cache with operationHash := hash }
          let run := { run with record := { run.record with cache := cache } }
          if inv.cacheMode = .refresh then
            let record := { run.record with cache := { cache with status := .refresh } }
            .next ⟨{ run with record := record.noteCache .original target }, 0, prepared⟩
          else
            let run := run.act (.lookup hash inv.version)
            match o.cached with
            | .error f => .stop (run, some f)
            | .ok none =>
              let record := { run.record with cache := { cache with status := .miss } }
              .next ⟨{ run with record := record.noteCache .original target }, 0, prepared⟩
            | .ok (some cached) =>
              match admitCachedResult inv.parseURL target cached inv.call with
              | some _ => .stop (run, some .cacheIntegrity)
              | none =>
                .stop ({ run with record := (run.record.serve cached).noteCache .original target },
                  none)

/-- The deferred end. -/
def close (o : Opening A) (r : RunState A × Option Fault) : Ending A :=
  r.1.finish inv r.2 .original (o.closed - o.started)
    fun s => emit inv s .terminal s.record.attempts.length

/-- **`Execute`** after its first checks, for a call without a plan. The
policy allows at most `maxAttempts` rounds. -/
def run (o : Opening A) (rounds : ℕ → Round A) : Option (Ending A) :=
  match start inv o with
  | .stop r => some (close inv o r)
  | .next s => (Loop.run (body inv) rounds (inv.policy.maxAttempts.toNat + 1) 0 s).map (close inv o)

end Simple

end HardenLlm.Runtime
