import HardenLlm.Common.Lines
import HardenLlm.Runtime.Model.Types
/-!
# The evidence of a run

The records the client decodes and `evidence.go`: what it derives from a
result again before it believes it. Of a result only what is read here has
a field of its own; `raw` holds all of it. The published contract is a
parameter, `Wire`: the decoders of its schemas.
-/

namespace HardenLlm.Httpclient

open HardenLlm.Runtime (CacheMode CallType)

structure Origin where
  client : String := ""
  component : String := ""
  operationID : String := ""
  parentRunID : String := ""
  jobID : String := ""
  testRunID : String := ""
  testID : String := ""
  sourceRevision : String := ""
  deriving DecidableEq, Repr

/-- **What the client asked for**, as far as it checks the answer against
it. No cache mode is the mode `off`. -/
structure RunInput where
  profileID : String
  modelID : String := ""
  callType : CallType
  schema : Bytes := []
  cacheMode : Option CacheMode := none
  origin : Origin := {}
  deriving DecidableEq

structure ExecutionTarget where
  profileID : String
  provider : String
  protocol : String
  endpoint : String
  modelID : String
  deriving DecidableEq, Repr

inductive ResultSourceKind
  | none
  | provider
  | cache
  deriving DecidableEq, Repr

structure ResultSource where
  kind : ResultSourceKind
  attemptNumber : ℤ := 0
  producer : Option ExecutionTarget := .none
  deriving DecidableEq, Repr

structure Attempt where
  number : ℤ
  profileID : String
  target : ExecutionTarget
  providerUsed : Bool
  deriving DecidableEq, Repr

structure CacheResult where
  mode : CacheMode
  status : String
  operationHash : String := ""
  originalOperationHash : String := ""
  rerunOperationHash : String := ""
  version : String := ""
  served : Bool
  written : Bool
  deriving DecidableEq, Repr

inductive RunStatus
  | succeeded
  | failed
  | timeout
  deriving DecidableEq, Repr

structure RecordedRunOutput where
  runID : String
  status : RunStatus
  output : Bytes
  callID : String
  traceID : String
  origin : Origin
  selectedTarget : Option ExecutionTarget
  resultSource : ResultSource
  attempts : List Attempt
  cache : CacheResult
  providerInvoked : Bool
  raw : Bytes := []
  deriving DecidableEq

structure RunState where
  lastRunID : String
  lastTraceID : String
  deriving DecidableEq, Repr

structure FieldError where
  field : String
  message : String
  deriving DecidableEq, Repr

structure Diagnostic where
  code : String
  component : String
  operation : String
  requestID : String
  runID : String
  traceID : String
  inferenceOutcome : String
  persistenceOutcome : String
  cause : String
  durationMS : ℤ
  message : String
  action : String
  deriving DecidableEq, Repr

structure RunError where
  code : String
  message : String
  fieldErrors : List FieldError := []
  currentRevision : Option ℤ := none
  diagnostic : Option Diagnostic := none
  deriving DecidableEq, Repr

inductive RecordingMode
  | disabled
  | enabled
  deriving DecidableEq, Repr

inductive RecordingStatus
  | disabled
  | configurationError
  | saved
  | notSaved
  | unconfirmed
  deriving DecidableEq, Repr

structure RecordingOutcome where
  mode : RecordingMode
  status : RecordingStatus
  runID : String
  diagnostic : Option Diagnostic := none
  deriving DecidableEq, Repr

structure RunEvidence where
  operationID : String
  traceID : String
  cache : CacheResult
  providerInvoked : Bool
  providerAttemptCount : ℕ
  deriving DecidableEq, Repr

/-! ## The wire -/

inductive EventType
  | started
  | progress
  | completed
  | failed
  | recorded
  deriving DecidableEq, Repr

/-- The name of a type in a frame. -/
def EventType.name : EventType → Bytes
  | .started => Lines.ascii "run.started"
  | .progress => Lines.ascii "run.progress"
  | .completed => Lines.ascii "run.completed"
  | .failed => Lines.ascii "run.failed"
  | .recorded => Lines.ascii "history.recorded"

structure RunEvent where
  sequence : ℕ
  runID : String
  callID : String
  traceID : String
  type : EventType
  data : Bytes
  deriving DecidableEq

/-- The parts of a terminal event; one that is absent is empty. -/
structure Payload where
  result : Bytes
  state : Bytes
  error : Bytes
  deriving DecidableEq

/-- **The published contract**: `decodeWire` for each schema, the decoder of
a terminal's parts, and what `validateStructured` asks of an output. A
recorded run has its three identifiers: each is required and has at least
one character. -/
structure Wire where
  event : Bytes → Option RunEvent
  payload : Bytes → Option Payload
  result : Bytes → Option RecordedRunOutput
  state : Bytes → Option RunState
  problem : Bytes → Option RunError
  recording : Bytes → Option RecordingOutcome
  cacheResult : CacheResult → Bool
  text : Bytes → Bool
  structured : Bytes → Bytes → Bool
  result_identified : ∀ {data out}, result data = some out →
    out.runID ≠ "" ∧ out.callID ≠ "" ∧ out.traceID ≠ ""

/-- Why a response is not believed, or not read to its end. -/
inductive Cause
  | protocol
  | read
  deriving DecidableEq, Repr

/-! ## Checks -/

namespace Wire

variable (W : Wire)

/-- `validateStructured` finds nothing wrong. -/
def validateStructured (input : RunInput) (output : Bytes) : Bool :=
  match input.callType with
  | .text => W.text output
  | .structured => W.structured input.schema output

/-- `validateExecutionFacts` finds nothing wrong. -/
def validateExecutionFacts (e : RunEvidence) : Bool :=
  !(10 < e.providerAttemptCount || e.providerInvoked != decide (0 < e.providerAttemptCount))
    && W.cacheResult e.cache
    && !(decide (e.cache.status = "hit") != e.cache.served || (e.cache.served && e.cache.written)
      || (e.cache.mode = .off && (e.cache.served || e.cache.written))
      || (e.cache.mode = .refresh && e.cache.served))

/-- `ValidateEvidence` finds nothing wrong. -/
def validateEvidence (e : RunEvidence) (operationID : String) (mode : CacheMode) : Bool :=
  !(e.operationID ≠ operationID || Runtime.trimSpace operationID = ""
      || Runtime.trimSpace e.traceID = "" || e.cache.mode ≠ mode)
    && W.validateExecutionFacts e

end Wire

/-- The selected target is the one that was asked for, or there is none and
nothing was done. -/
def checkTarget (result : RecordedRunOutput) (input : RunInput) : Bool :=
  match result.selectedTarget with
  | none => !(result.status = .succeeded || !result.attempts.isEmpty || result.providerInvoked
      || result.resultSource.kind ≠ .none)
  | some target => !(target.profileID ≠ input.profileID
      || (input.modelID ≠ "" && target.modelID ≠ input.modelID))

/-- The attempts that went to the provider, if no number comes twice and
each target is of its profile. -/
def countAttempts (seen : List ℤ) (count : ℕ) : List Attempt → Option ℕ
  | [] => some count
  | a :: rest =>
    if a.number ∈ seen ∨ a.profileID ≠ a.target.profileID then none
    else countAttempts (a.number :: seen) (if a.providerUsed then count + 1 else count) rest

/-- A result of the provider is that of one of the attempts. -/
def checkProduced (result : RecordedRunOutput) : Bool :=
  if result.resultSource.kind = .provider then
    match (result.attempts.filter (·.number = result.resultSource.attemptNumber)).getLast? with
    | none => false
    | some produced => produced.providerUsed && result.resultSource.producer = some produced.target
  else true

/-- The source of the result fits its status and its cache. -/
def checkSource (result : RecordedRunOutput) : Bool :=
  !(result.status = .succeeded
      && (result.resultSource.kind = .none || result.resultSource.producer.isNone))
    && !((result.resultSource.kind = .cache && !result.cache.served)
      || (result.resultSource.kind = .provider && result.cache.served))

/-- **`projectEvidence`.** There is no evidence without a target or an
operation. -/
def projectEvidence (W : Wire) (result : RecordedRunOutput) (input : RunInput) :
    Except Cause (Option RunEvidence) :=
  if result.origin ≠ input.origin then .error .protocol
  else if !checkTarget result input then .error .protocol
  else match countAttempts [] 0 result.attempts with
    | none => .error .protocol
    | some count =>
      if !checkProduced result || !checkSource result then .error .protocol
      else
        let mode := input.cacheMode.getD .off
        let evidence : RunEvidence :=
          ⟨input.origin.operationID, result.traceID, result.cache, result.providerInvoked, count⟩
        if result.cache.mode ≠ mode || !W.validateExecutionFacts evidence then .error .protocol
        else if result.selectedTarget.isNone || Runtime.trimSpace input.origin.operationID = "" then
          .ok none
        else if !W.validateEvidence evidence input.origin.operationID mode then .error .protocol
        else .ok (some evidence)

end HardenLlm.Httpclient
