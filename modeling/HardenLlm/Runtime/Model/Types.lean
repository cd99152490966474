import HardenLlm.Batch.Model.Execution
import HardenLlm.Runtime.Model.Retry
/-!
# Calls, results and records

The data of `internal/runtime`: connections with their credentials, the
call that is prepared for a provider, what a provider and a cache return,
and the record a run leaves. The messages and tools of a call, its tracing
context and its observer pass through a run unread and are left out, as
are the clock readings in its progress events.
-/

namespace HardenLlm.Runtime

variable {A : Type}

/-! ## Connections -/

structure Connection (A : Type) where
  id : String
  provider : String := ""
  apiInferenceType : String := ""
  baseURL : String := ""
  cacheDomain : String := ""
  supportsWebSearch : Bool := false
  pricing : Option (Pricing A) := none
  deriving DecidableEq, Repr

structure Credential where
  apiKey : String
  headers : List (String × String) := []
  deriving DecidableEq, Repr

/-- **A connection with its own credential.** -/
structure ResolvedConnection (A : Type) where
  connection : Connection A
  credential : Credential
  deriving DecidableEq, Repr

structure ExecutionTarget where
  connectionID : String
  provider : String
  protocol : String
  endpoint : String
  modelID : String
  deriving DecidableEq, Repr

/-! ## Results -/

structure FunctionCall where
  name : String
  arguments : String
  deriving DecidableEq, Repr

structure AssistantToolCall where
  id : String
  itemID : String := ""
  type : String
  function : FunctionCall
  deriving DecidableEq, Repr

/-- **An output**: a string, a decoded JSON value, or the calls of an
`AssistantOutput`. A value that does not encode as JSON is
`unencodable`. -/
inductive Output
  | none
  | text (s : String)
  | value (v : Json)
  | assistant (content : String) (toolCalls : List AssistantToolCall)
  | unencodable

def AssistantToolCall.document (c : AssistantToolCall) : Json :=
  .obj ([("id", .str c.id)] ++ (if c.itemID = "" then [] else [("item_id", .str c.itemID)])
    ++ [("type", .str c.type), ("function",
      .obj [("name", .str c.function.name), ("arguments", .str c.function.arguments)])])

/-- `AssistantOutput` as JSON. -/
def assistantDocument (content : String) (toolCalls : List AssistantToolCall) : Json :=
  .obj ((if content = "" then [] else [("content", .str content)])
    ++ [("tool_calls", .arr (toolCalls.map (·.document)))])

structure SearchSource where
  url : String
  title : String
  deriving DecidableEq, Repr

structure SearchCitation where
  url : String
  title : String
  startIndex : ℤ
  endIndex : ℤ
  deriving DecidableEq, Repr

/-- **The evidence behind an answer.** -/
structure SearchResult where
  mode : String
  executed : Bool := false
  sources : Option (List SearchSource)
  citations : List SearchCitation := []
  entryPointHTML : String := ""
  costStatus : String
  deriving DecidableEq, Repr

/-- The transport's measurements; the batch package reads the first
five. -/
structure StreamDiagnostics extends Batch.StreamDiagnostics where
  receivedBytes : ℤ := 0
  eventCount : ℤ := 0
  firstEventMS : Option ℤ := none
  lastEventAt : Option ℤ := none
  lastOutputAt : Option ℤ := none
  terminalState : String := ""
  deriving DecidableEq, Repr

/-- **What one dispatch returned.** -/
structure ProviderResult (A : Type) where
  assistantText : String := ""
  search : Option SearchResult := none
  output : Output := .none
  accounting : Ledger A
  stream : StreamDiagnostics := {}
  providerDispatched : Bool := false

/-- Which stage completed a cached result. -/
inductive CompletedBy
  | generation
  | repair
  | other (text : String)
  deriving DecidableEq, Repr

structure CachedResult (A : Type) where
  providerResult : ProviderResult A
  producer : ExecutionTarget
  generationTarget : ExecutionTarget
  completedBy : CompletedBy

/-! ## Stages -/

inductive Branch
  | original
  | rerun
  deriving DecidableEq, Repr

/-- **The stages of a recovery plan.** -/
inductive Stage
  | originalGenerate
  | originalRepairInitial
  | originalRepairEscalate
  | rerunGenerate
  | rerunRepairInitial
  | rerunRepairEscalate
  deriving DecidableEq, Repr

/-- A failed stage, as a later repair sees it. -/
structure RepairHistoryEntry where
  stage : Stage
  attempt : ℕ
  output : String
  validationError : String
  deriving DecidableEq, Repr

structure RepairRequest where
  attempt : ℕ
  maxAttempts : ℤ
  stage : Stage
  branch : Branch
  targetSchema : String
  history : List RepairHistoryEntry
  deriving DecidableEq, Repr

/-! ## Calls -/

inductive CallType
  | text
  | structured
  deriving DecidableEq, Repr

/-- **A call.** -/
structure Call (A : Type) where
  connections : String → Option (ResolvedConnection A)
  modelID : String
  callType : CallType
  schema : String := ""
  reasoningEffort : String := ""
  webSearch : Bool := false
  /-- Whether the call has a memo for its searches. -/
  searchMemo : Bool := false
  providerOptions : Option Options := none
  validateStructured : Option (Output → Option Fault) := none
  repair : Option RepairRequest := none
  /-- Whether the caller takes progress events. -/
  progress : Bool := false

/-- The provider request's identity, as far as the runtime reads it. -/
structure Operation where
  cacheDomain : String := ""
  protocol : String
  endpointIdentity : String
  model : String
  responseProvider : String := ""
  deriving DecidableEq, Repr

/-- A prepared request. Of the executor's own part, whether it goes
through admission. -/
structure PreparedOperation where
  operation : Operation
  admitted : Bool := false
  deriving DecidableEq, Repr

/-! ## Records -/

inductive CacheMode
  | off
  | cache
  | refresh
  deriving DecidableEq, Repr

inductive CacheStatus
  | skipped
  | hit
  | miss
  | refresh
  | writeFailed
  deriving DecidableEq, Repr

structure CacheFacts where
  mode : CacheMode
  status : CacheStatus := .skipped
  operationHash : String := ""
  originalOperationHash : String := ""
  rerunOperationHash : String := ""
  version : String
  served : Bool := false
  written : Bool := false
  deriving DecidableEq, Repr

structure BranchCache where
  branch : Branch
  generationTarget : ExecutionTarget
  cache : CacheFacts
  deriving DecidableEq, Repr

/-- Where a result came from. -/
inductive ResultSource
  | none
  | provider (attemptNumber : ℕ) (producer : ExecutionTarget)
  | cache (producer : ExecutionTarget)
  deriving DecidableEq, Repr

inductive StopReason
  | succeeded
  | canceled
  | deadlineExceeded
  | repairInputLimitExceeded
  | responseLimitExceeded
  | terminalError
  | attemptsExhausted
  | recoveryExhausted
  | configurationError
  deriving DecidableEq, Repr

structure WaitDiagnostics where
  reason : Category
  planned : ℤ
  actual : ℤ
  retryAfter : ℤ
  deriving DecidableEq, Repr

/-- **One attempt of a call.** -/
structure AttemptRecord where
  number : ℕ
  connectionID : String
  target : ExecutionTarget
  providerUsed : Bool
  classification : Classification
  delay : ℤ := 0
  duration : ℤ
  repair : Bool
  stage : Stage
  branch : Branch
  triggerAttempt : ℕ := 0
  inputAttempts : List ℕ := []
  transportRetryOf : ℕ := 0
  startedAt : ℤ
  finishedAt : ℤ
  reasoningEffort : String
  stream : Option StreamDiagnostics := none
  waitDiagnostics : Option WaitDiagnostics := none
  deriving DecidableEq, Repr

structure Diagnostics where
  stage : Option Stage := none
  branch : Option Branch := none
  stopReason : Option StopReason := none
  attemptsUsed : ℕ := 0
  attemptsRemaining : ℤ := 0
  elapsed : ℤ := 0
  totalActualWait : ℤ := 0
  receivedBytes : ℤ := 0
  eventCount : ℤ := 0
  outputBytes : ℤ := 0
  outputCodePoints : ℤ := 0
  effectiveTimeoutMS : Option ℤ := none
  deadlineAt : Option ℤ := none
  branchCaches : List BranchCache := []
  deriving DecidableEq, Repr

/-- **What a run leaves.** -/
structure CallRecord (A : Type) where
  assistantText : String := ""
  search : Option SearchResult := none
  callID : String
  traceID : String
  output : Output := .none
  selectedTarget : ExecutionTarget
  resultSource : ResultSource := .none
  accounting : Accounting A
  attempts : List AttemptRecord := []
  parseFailureResponse : Option String := none
  preparedOperation : Option PreparedOperation := none
  generationTarget : ExecutionTarget
  branch : Branch := .original
  stopReason : Option StopReason := none
  diagnostics : Diagnostics := {}
  cache : CacheFacts

/-! ## Progress -/

inductive ProgressType
  | started
  | progress
  | terminal
  deriving DecidableEq, Repr

/-- **A progress event.** -/
structure ProgressEvent where
  sequence : ℕ
  type : ProgressType
  stage : Stage
  branch : Branch
  connectionID : String
  reasoningEffort : String
  attempt : ℕ
  attemptsUsed : ℕ
  attemptsRemaining : ℤ
  maxAttempts : ℤ
  stopReason : Option StopReason
  receivedBytes : ℤ
  eventCount : ℤ
  outputBytes : ℤ
  outputCodePoints : ℤ
  terminal : Bool
  deriving DecidableEq, Repr

end HardenLlm.Runtime
