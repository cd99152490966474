import HardenLlm.Batch.Model.Ledger
/-!
# Provider calls and what is observed of them

An executor's call returns a result and perhaps an error, and the
invocation that made it turns the two into an observation: `InvokeAttempt`
for the items of jobs, the admission executor for ordinary requests. An
error counts as a refusal only if the provider answered it before any
output. An invocation that does not reach the executor says so, and one
that panics inside it claims nothing.
-/

namespace HardenLlm.Batch

/-! ## What a call returns -/

/-- `ProviderError`, as far as the package reads it; `network` is its
category. -/
structure ProviderError where
  status : ℤ := 0
  code : String := ""
  retryAfter : ℤ := 0
  network : Bool := false
  deriving DecidableEq, Repr

/-- **An error**, by what `errors.As` and `errors.Is` find in its
chain. -/
structure ExecutionError where
  provider : Option ProviderError := none
  canceled : Bool := false
  deadlineExceeded : Bool := false
  deriving DecidableEq, Repr

structure StreamDiagnostics where
  correlationID : String := ""
  headersMS : Option ℤ := none
  firstOutputMS : Option ℤ := none
  outputBytes : ℤ := 0
  outputCodePoints : ℤ := 0
  deriving DecidableEq, Repr

/-- Token usage; the prompt and completion totals are those its accessors
report. -/
structure Usage where
  status : String := ""
  promptTokens : ℤ := 0
  completionTokens : ℤ := 0
  reasoningTokens : ℤ := 0
  cacheReadTokens : ℤ := 0
  deriving DecidableEq, Repr

/-- `Result`, the hardened call's: its text, its diagnostics and the stream
of each attempt it made. -/
structure Result where
  assistantText : String := ""
  outputBytes : ℤ := 0
  outputCodePoints : ℤ := 0
  attempts : List (Option StreamDiagnostics) := []
  usage : Usage := {}
  deriving DecidableEq, Repr

/-- `ProviderResult`, of one concrete dispatch. -/
structure ProviderResult where
  assistantText : String := ""
  stream : StreamDiagnostics := {}
  usage : Usage := {}
  deriving DecidableEq, Repr

/-- **What a provider call returned.** -/
inductive Reply
  | job (result : Result) (err : Option ExecutionError)
  | ordinary (result : ProviderResult) (err : Option ExecutionError)
  deriving DecidableEq, Repr

def Reply.kind : Reply → Kind
  | .job _ _ => .job
  | .ordinary _ _ => .ordinary

/-! ## Classification -/

/-- `^[A-Za-z0-9_-]{1,128}$`. -/
def safeErrorCode (code : String) : Bool :=
  0 < code.length && code.length ≤ 128
    && code.toList.all (fun c => c.isAlphanum || c = '_' || c = '-')

namespace ProviderError

variable (p : ProviderError)

/-- The code as it is reported. -/
def reportedCode : String := if safeErrorCode p.code then p.code else "upstream_error"

/-- The retry delay in milliseconds, rounded up. -/
def delayMS : ℤ :=
  if p.retryAfter ≤ 0 then 0
  else milliseconds p.retryAfter + if p.retryAfter % millisecond = 0 then 0 else 1

/-- What the provider's answer means: a restriction of the account, a
refusal of this request, or a failure. -/
def verdict : OutcomeKind :=
  if p.status = 401 ∨ p.status = 403 ∨ p.reportedCode ∈ ["account_deactivated", "policy_violation",
      "insufficient_quota", "billing_hard_limit_reached", "billing_not_active"] then .policy
  else if p.reportedCode = "auth_unavailable" ∧ p.retryAfter ≤ 0 then .policy
  else if p.status = 429
      ∨ p.reportedCode ∈ ["rate_limit_exceeded", "model_cooldown", "auth_unavailable"] then .rejected
  else .failed

end ProviderError

/-- `classifyAttemptError`: the kind, the error and the retry delay. -/
def classifyAttemptError (err : ExecutionError) : OutcomeKind × ItemError × ℤ :=
  let problem (code : String) (status : ℤ) : ItemError :=
    { code := if err.deadlineExceeded then "provider_timeout" else code
      message := "The provider request did not produce a validated result."
      httpStatus := status }
  match err.provider with
  | none => (.failed, problem "upstream_error" 0, 0)
  | some p => (p.verdict, problem p.reportedCode p.status, p.delayMS)

/-- The call, or one of its attempts, produced output. -/
def Result.hasOutput (r : Result) : Bool :=
  r.assistantText ≠ "" || 0 < r.outputBytes || 0 < r.outputCodePoints
    || r.attempts.any fun stream =>
      stream.any fun s => 0 < s.outputBytes || 0 < s.outputCodePoints

/-- `classifyGenerationError`: a refusal after output is unconfirmed. -/
def classifyGenerationError (err : ExecutionError) (result : Result) :
    OutcomeKind × ItemError × ℤ :=
  let (kind, problem, delay) := classifyAttemptError err
  (if kind = .rejected ∧ result.hasOutput = true then .unconfirmed else kind, problem, delay)

/-- What the error says about future admission. -/
def ExecutionError.admission (err : ExecutionError) : Admission :=
  match (classifyAttemptError err).1 with
  | .rejected => .throttled
  | .policy => .restricted
  | _ => .other ""

/-- **No answer of the provider**: no HTTP status, or the call was given
up. -/
def ExecutionError.unanswered (err : ExecutionError) : Bool :=
  err.provider.all (fun p => p.status = 0) || err.canceled || err.deadlineExceeded

/-- **A refusal**: the provider answered, without output, that it did not
take the request. -/
structure Refusal (result : Result) (err : ExecutionError) : Prop where
  answered : ∃ p, err.provider = some p ∧ p.status ≠ 0
  uncanceled : err.canceled = false
  inTime : err.deadlineExceeded = false
  classified : (classifyAttemptError err).1 = .rejected
  noText : result.assistantText = ""
  noOutput : result.outputBytes ≤ 0 ∧ result.outputCodePoints ≤ 0
  noStream : ∀ s, some s ∈ result.attempts → s.outputBytes ≤ 0 ∧ s.outputCodePoints ≤ 0

/-- A job's call that was refused. -/
def Reply.Refused : Reply → Prop
  | .job result (some err) => Refusal result err
  | _ => False

/-! ## Invocations of a job's permit -/

/-- `StoredItem`, what `Load` returned of the item. -/
structure StoredItem where
  generation : Generation
  attempt : ℤ
  readyAt : ℤ
  deadline : ℤ
  outcome : Outcome
  deriving DecidableEq, Repr

/-- Why an invocation did not enter the provider. -/
inductive Unsent
  | invalidAttemptKind
  | itemUnavailable
  | snapshotConflict
  | dispatchDeadlineExceeded
  | dispatchNotConfirmed
  | claimAcknowledgementLost
  deriving DecidableEq, Repr

def Unsent.code : Unsent → String
  | .invalidAttemptKind => "invalid_attempt_kind"
  | .itemUnavailable => "item_unavailable"
  | .snapshotConflict => "snapshot_conflict"
  | .dispatchDeadlineExceeded => "dispatch_deadline_exceeded"
  | .dispatchNotConfirmed => "dispatch_not_confirmed"
  | .claimAcknowledgementLost => "claim_acknowledgement_lost"

/-- The start lease or the deadline has passed, each at its own reading of
the clock. -/
def Attempt.late (a : Attempt) (t t' : ℤ) : Bool := ¬ t < a.startBy || ¬ t' < a.deadline

/-- What `InvokeAttempt` checks between its claim and its dispatch. -/
def preflight (claimed : Attempt) (item : Option StoredItem) (canceled : Bool) (t t' : ℤ) :
    Option Unsent :=
  if claimed.kind ≠ .job then some .invalidAttemptKind
  else match item with
    | none => some .itemUnavailable
    | some item =>
      if ¬ reservationMatchesSnapshot claimed.toReservation item.generation item.deadline then
        some .snapshotConflict
      else if canceled || claimed.late t t' then some .dispatchDeadlineExceeded
      else none

/-- `neverSent`, and the evidence of `confirmNeverEnteredClaim`. -/
def neverSent (reason : Unsent) (now : ℤ) : AttemptObservation where
  outcome :=
    { kind := .neverDispatched
      error := some ⟨reason.code, "The invocation did not enter the provider path.", 0⟩ }
  localStopped := true
  observedAt := now

/-- The outcome with which the provider is entered; `deadline` is the
call's. -/
def enteredOutcome (a : Attempt) (item : StoredItem) (started deadline : ℤ) : Outcome :=
  let wait := max 0 (milliseconds (started - item.readyAt))
  { kind := .unconfirmed
    attempt := item.attempt + 1
    startedAt := some started
    queueMS := if item.outcome.kind = .rejected then 0 else wait
    retryWaitMS := if item.outcome.kind = .rejected then wait else 0
    generationBudgetMS := a.budgetMS
    generationDeadline := some deadline }

/-- A correlation id that is kept: short and without control characters. -/
def safeCorrelationID (id : String) : Bool :=
  id.utf8ByteSize ≤ 256 && id.toList.all (fun c => 32 ≤ c.toNat && c.toNat ≠ 127)

/-- `copyAttemptDiagnostics`. -/
def copyAttemptDiagnostics (out : Outcome) (result : Result) : Outcome :=
  let copied := result.attempts.foldl (fun (out : Outcome) stream =>
    match stream with
    | none => out
    | some s =>
      { out with
        headersMS := s.headersMS
        firstOutputMS := s.firstOutputMS
        providerRequestID := if safeCorrelationID s.correlationID then s.correlationID else "" }) out
  if result.usage.status = "complete" then
    { copied with
      inputTokens := some result.usage.promptTokens
      outputTokens := some result.usage.completionTokens
      reasoningTokens := some result.usage.reasoningTokens
      cachedInputTokens := some result.usage.cacheReadTokens }
  else copied

def attemptArtifactID (id : String) : String := "attempt-" ++ id ++ ".json"

/-- What follows a call that returned: its time, whether the response was
encoded and fits its envelope, and whether the artifact was stored, or read
back as written. -/
structure Aftermath where
  finished : ℤ
  durationMS : ℤ
  encoded : Bool
  enveloped : Bool
  stored : Bool
  deriving DecidableEq, Repr

/-- The outcome of a call that returned an error. -/
def erredOutcome (out : Outcome) (result : Result) (err : ExecutionError) : Outcome :=
  let (kind, problem, delay) := classifyGenerationError err result
  { out with
    kind := if err.unanswered then .unconfirmed else kind
    error := some problem
    retryAfterMS := delay
    admission := err.admission }

/-- The outcome of a call that returned a result. -/
def answeredOutcome (out : Outcome) (permit : String) (deadline : ℤ) (after : Aftermath) : Outcome :=
  if deadline < after.finished then
    { out with
      kind := .unconfirmed
      error := some ⟨"generation_deadline_exceeded",
        "The invocation returned after its generation deadline.", 0⟩ }
  else if ¬ after.encoded then
    { out with
      kind := .failed
      error := some ⟨"result_encoding_failed", "The result could not be encoded.", 0⟩ }
  else if ¬ after.enveloped then
    { out with
      kind := .failed
      error := some ⟨"result_encoding_failed", "The result exceeded its artifact limit.", 0⟩ }
  else if ¬ after.stored then
    { out with
      kind := .unconfirmed
      error := some ⟨"result_storage_unconfirmed",
        "The generated result's persistence is unconfirmed.", 0⟩ }
  else { out with kind := .completed, artifactID := attemptArtifactID permit }

/-- **What `InvokeAttempt` makes of the call's return.** -/
def returnedOutcome (out : Outcome) (permit : String) (deadline : ℤ) (result : Result)
    (err : Option ExecutionError) (after : Aftermath) : Outcome :=
  let out := copyAttemptDiagnostics
    { out with finishedAt := some after.finished, durationMS := after.durationMS } result
  match err with
  | some err => erredOutcome out result err
  | none => answeredOutcome out permit deadline after

/-- The deferred handler after a panic: nothing is known of a call that was
entered, and one that was not never will be. -/
def panickedObservation (out : Outcome) (nativeEntered localStopped : Bool) (now : ℤ) :
    AttemptObservation where
  outcome :=
    { out with
      kind := if nativeEntered then .unconfirmed else .neverDispatched
      artifactID := ""
      error := some ⟨"invocation_panicked",
        "The invocation stopped reporting a confirmed result.", 0⟩ }
  nativeEntered := nativeEntered
  localStopped := localStopped || !nativeEntered
  observedAt := now

/-- `attemptFinalizationGrace`. -/
def attemptFinalizationGrace : ℤ := 30 * second

/-! ## Ordinary dispatches -/

/-- The identity checks of `begin` on the row its claim returned. -/
def RequestWaiter.owns (w : RequestWaiter) (a : Attempt) : Prop :=
  a.kind = .ordinary ∧ a.requestID = w.requestID ∧ a.poolID = w.poolID
    ∧ a.generation = w.generation ∧ a.ref.scope = w.scope ∧ a.claimID = w.ownerID
    ∧ a.budgetMS = w.budgetMS ∧ a.deadline = w.deadline

/-- `ObserveProviderDispatch`, its outcome. -/
def observeProviderDispatch (r : ProviderResult) (err : Option ExecutionError) : Outcome :=
  let complete := r.usage.status = "complete"
  let out : Outcome :=
    { kind := .completed
      headersMS := r.stream.headersMS
      firstOutputMS := r.stream.firstOutputMS
      providerRequestID := r.stream.correlationID
      inputTokens := if complete then some r.usage.promptTokens else none
      outputTokens := if complete then some r.usage.completionTokens else none
      reasoningTokens := if complete then some r.usage.reasoningTokens else none
      cachedInputTokens := if complete then some r.usage.cacheReadTokens else none }
  match err with
  | none => out
  | some err =>
    let (kind, problem, delay) := classifyGenerationError err
      { assistantText := r.assistantText, outputBytes := r.stream.outputBytes
        outputCodePoints := r.stream.outputCodePoints }
    let ambiguous := err.canceled || err.deadlineExceeded || err.provider.any (·.network)
    { out with
      kind := if ambiguous then .unconfirmed else kind
      error := some problem
      retryAfterMS := delay
      admission := err.admission }

/-- The outcome of an ordinary call that returned, late or in time. -/
def dispatchedOutcome (a : Attempt) (r : ProviderResult) (err : Option ExecutionError)
    (finished : ℤ) : Outcome :=
  let out := observeProviderDispatch r err
  if err.isNone && a.generationDeadline.any (· < finished) then { out with kind := .unconfirmed }
  else out

/-- The readings `Execute` reports with its observation. -/
structure Timing where
  queuedMS : ℤ
  started : ℤ
  durationMS : ℤ
  finished : ℤ
  now : ℤ
  deriving DecidableEq, Repr

/-- The outcome of an ordinary invocation that panicked. -/
def ordinaryPanicked : Outcome :=
  { kind := .unconfirmed
    error := some ⟨"invocation_panicked", "The invocation outcome is unconfirmed.", 0⟩ }

/-- **The deferred observation of the admission executor.** -/
def ordinaryObservation (a : Attempt) (out : Outcome) (nativeEntered stopped : Bool) (t : Timing) :
    AttemptObservation where
  outcome :=
    { out with
      queueMS := t.queuedMS
      attempt := a.ordinal
      generationBudgetMS := a.budgetMS
      generationDeadline := a.generationDeadline
      startedAt := if nativeEntered then some t.started else out.startedAt
      durationMS := if nativeEntered then t.durationMS else out.durationMS
      finishedAt := if stopped then some t.finished else out.finishedAt }
  nativeEntered := nativeEntered
  localStopped := !nativeEntered || stopped
  observedAt := t.now

/-! ## Artifacts and reconciliation -/

/-- `attemptArtifact`, without the response it carries. -/
structure Artifact where
  permitID : String
  poolID : String
  claimID : String
  ref : Ref
  observation : AttemptObservation
  deriving DecidableEq, Repr

/-- The checks of `decodeAttemptArtifact` against the row it is read for. -/
def Artifact.decodes (size : AttemptObservation → ℕ) (x : Artifact) (a : Attempt) : Prop :=
  x.poolID = a.poolID ∧ x.permitID = a.permitID ∧ x.claimID = a.claimID ∧ x.ref = a.ref
    ∧ validPermitID x.claimID = true ∧ x.observation.outcome.kind = .completed
    ∧ x.observation.outcome.artifactID = attemptArtifactID a.permitID
    ∧ x.observation.localStopped = true ∧ x.observation.nativeEntered = true
    ∧ validObservation size x.observation
    ∧ ∃ started ∈ x.observation.outcome.startedAt, ∃ finished ∈ x.observation.outcome.finishedAt,
      finished ≤ a.executionDeadline ∧ started ≤ finished ∧ finished ≤ x.observation.observedAt
        ∧ ∀ claimed ∈ a.claimedAt, claimed ≤ started

/-- **Evidence**: what an invocation or a reconciliation writes to the
ledger about a permit. -/
inductive Evidence
  | stop (permit nonce : String) (time : ℤ)
  | stage (permit nonce : String) (o : AttemptObservation)
  | settle (permit nonce : String) (o : AttemptObservation)
  | expire (permit : String)
  deriving DecidableEq, Repr

/-- What an invocation sends once it has its observation. -/
def evidenceOf (permit nonce : String) (o : AttemptObservation) : List Evidence :=
  (if o.localStopped then [.stop permit nonce o.observedAt] else [])
    ++ [.stage permit nonce o, .settle permit nonce o]

/-- The observation of a claim nothing was heard of. -/
def unheard (a : Attempt) (now : ℤ) : AttemptObservation where
  outcome :=
    { kind := .unconfirmed
      error := some ⟨"execution_unconfirmed",
        "No authoritative invocation outcome was retained before finalization.", 0⟩ }
  nativeEntered := a.dispatchedAt.isSome
  localStopped := a.stoppedAt.isSome
  observedAt := now

/-- `ReconcileAttempt`, from the row it looked up: what it then writes, if
anything. `artifact` is the decoded artifact of the permit, if there is
one. -/
def reconcileAttempt (retained : Attempt) (artifact : Option AttemptObservation) (t now : ℤ) :
    Option Evidence :=
  match retained.state with
  | .settled => none
  | .reserved => if t < retained.startBy then none else some (.expire retained.permitID)
  | .dispatching =>
    let settle (o : AttemptObservation) := some (.settle retained.permitID retained.claimID o)
    match retained.observation with
    | some o => settle o
    | none =>
      let recovered := if retained.kind = .job ∧ retained.dispatchedAt ≠ none then artifact else none
      match recovered with
      | some o => settle o
      | none =>
        if t < retained.executionDeadline + attemptFinalizationGrace then none
        else settle (unheard retained now)

end HardenLlm.Batch
