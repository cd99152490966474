import HardenLlm.Runtime.Model.Types
/-!
# What is admitted as a result

The checks of `execute.go` behind which every output stands, of a provider
and of a cache: its ledger, its search evidence, that there is an output,
and the caller's validator for structured calls. Parsing a URL is the
standard library's and a parameter here.
-/

namespace HardenLlm.Runtime

variable {A : Type} [Amounts A]

/-! ## Search evidence -/

/-- A parsed URL, as far as it is read. -/
structure URL where
  scheme : String
  hostname : String
  hasUser : Bool
  deriving DecidableEq, Repr

variable (parseURL : String → Option URL)

def validSearchURL (raw : String) : Bool :=
  (parseURL raw).any fun u =>
    (u.scheme = "https" || u.scheme = "http") && u.hostname ≠ "" && !u.hasUser

def maxSearchEntryPointCodePoints : ℕ := 32768

/-- The evidence's first defect. -/
def validateSearchResult (result : Option SearchResult) : Option String :=
  match result with
  | none => none
  | some r =>
    if r.mode ≠ "native" ∧ r.mode ≠ "jina" then some "runtime: search mode is invalid"
    else if r.costStatus ≠ "unavailable" then some "runtime: search cost status is invalid"
    else match r.sources with
      | none => some "runtime: search source list is invalid"
      | some sources =>
        if 50 < sources.length then some "runtime: search source list is invalid"
        else if !sources.all (fun s => validSearchURL parseURL s.url) then
          some "runtime: search source URL is invalid"
        else if !r.citations.all (fun c => validSearchURL parseURL c.url && 0 ≤ c.startIndex
            && c.startIndex < c.endIndex) then
          some "runtime: search citation is invalid"
        else if maxSearchEntryPointCodePoints < r.entryPointHTML.length then
          some "runtime: search entry point exceeds 32768 code points"
        else none

/-! ## Accounting -/

def normalizedLedger (l : Ledger A) : Ledger A where
  usage := if l.usage.status = .unset then unavailableUsage else l.usage
  cost := if l.cost.status = .unset then unavailableCost else l.cost

def accountingProviderError : Fault :=
  .providerError "ACCOUNTING_INVALID" .other "provider accounting is invalid"

def validateLedger (l : Ledger A) : Option Fault :=
  if l.usage.validate && l.cost.validate then none else some accountingProviderError

/-- The codes that an accounting failure does not replace. -/
def authoritativeCodes : List String :=
  ["ENDPOINT_POLICY", "TLS_OR_TRANSPORT_CONFIGURATION", "RESPONSE_TOO_LARGE"]

/-- **The failure of an attempt whose accounting is invalid.** -/
def combineAccountingFailure (existing : Option Fault) : Fault :=
  match existing with
  | none => accountingProviderError
  | some f =>
    if f.isContext then f
    else match f.provider? with
      | none => accountingProviderError
      | some p =>
        if p.code ∈ authoritativeCodes then f
        else .provider
          { category := some .other, code := "ACCOUNTING_INVALID", status := p.status
            retryAfter := p.retryAfter, providerRequestID := p.providerRequestID
            typeName := p.typeName }
          (.plain "provider accounting is invalid")

/-- The cost of an attempt: the reported one, or the connection's
rates. -/
def resolveAttemptCost (l : Ledger A) (connection : Connection A) : Option (Cost A) :=
  match connection.pricing with
  | none => some l.cost
  | some pricing =>
    if l.cost.source = "reported" then some l.cost else resolveCost l.usage pricing

/-- **An attempt's result with its accounting settled**, the accumulator
after it, and the failure. -/
structure Settled (A : Type) where
  result : ProviderResult A
  accumulator : ProviderAccumulator A
  failure : Option Fault

/-- The ledger is normalized and priced, and added to what the call has
used. -/
def settle (connection : Connection A) (accumulator : ProviderAccumulator A)
    (result : ProviderResult A) (failure : Option Fault) : Settled A :=
  let ledger := normalizedLedger result.accounting
  let priced : Ledger A × Option Fault :=
    if result.providerDispatched then
      match resolveAttemptCost ledger connection with
      | none => (ledger, some (combineAccountingFailure failure))
      | some cost => ({ ledger with cost := cost }, failure)
    else (ledger, failure)
  let observed := accumulator.observe result.providerDispatched priced.1
  { result := { result with accounting := priced.1 }
    accumulator := observed.1
    failure := if observed.2 then priced.2 else some (combineAccountingFailure priced.2) }

/-! ## Admission -/

def acceptedOutput : Output → Bool
  | .none => false
  | .text s => trimSpace s ≠ ""
  | .value _ | .assistant _ _ | .unencodable => true

/-- **The checks every result passes.** -/
def admitResult (result : ProviderResult A) (callType : CallType)
    (validateStructured : Option (Output → Option Fault)) : Option Fault :=
  match validateLedger result.accounting with
  | some f => some f
  | none =>
    if !acceptedOutput result.output then
      some (.providerError "OUTPUT_REQUIRED" .other "provider returned no accepted output")
    else if (validateSearchResult parseURL result.search).isSome then
      some (.providerError "SEARCH_INVALID" .other "provider search metadata is invalid")
    else if callType = .structured then
      match validateStructured with
      | none => some (.plain "runtime structured output validator is required")
      | some validate => validate result.output
    else none

/-- A producer that is not the target expected. -/
def validateCacheProducer (producer expected : ExecutionTarget) : Option Fault :=
  if trimSpace producer.connectionID = "" ∨ producer.provider ≠ expected.provider
      ∨ producer.protocol ≠ expected.protocol ∨ producer.endpoint ≠ expected.endpoint
      ∨ producer.modelID ≠ expected.modelID then some .cacheIntegrity
  else none

def validateTargetSnapshot (target : ExecutionTarget) : Option Fault :=
  if trimSpace target.connectionID = "" ∨ trimSpace target.provider = ""
      ∨ trimSpace target.protocol = "" ∨ trimSpace target.endpoint = ""
      ∨ trimSpace target.modelID = "" then some .cacheIntegrity
  else none

def admitCachedResult (target : ExecutionTarget) (cached : CachedResult A) (call : Call A) :
    Option Fault :=
  (validateCacheProducer cached.producer target).or
    (admitResult parseURL cached.providerResult call.callType call.validateStructured)

/-- The identity of a cached result, for a call with a plan. -/
def validatePlannedProducer (generationTarget : ExecutionTarget) (cached : CachedResult A) :
    Option Fault :=
  if cached.generationTarget.connectionID = "" then
    validateCacheProducer cached.producer generationTarget
  else match cached.completedBy with
    | .generation =>
      (validateCacheProducer cached.generationTarget generationTarget).or
        (validateCacheProducer cached.producer cached.generationTarget)
    | .repair =>
      (validateTargetSnapshot cached.generationTarget).or (validateTargetSnapshot cached.producer)
    | .other _ => some .cacheIntegrity

def admitPlannedCachedResult (generationTarget : ExecutionTarget) (cached : CachedResult A)
    (call : Call A) : Option Fault :=
  (validatePlannedProducer generationTarget cached).or
    (admitResult parseURL cached.providerResult call.callType call.validateStructured)

/-! ## Targets -/

def targetFromConnection (connection : Connection A) (modelID : String) : ExecutionTarget :=
  ⟨connection.id, connection.provider, connection.apiInferenceType, connection.baseURL, modelID⟩

def targetFromPrepared (connection : Connection A) (prepared : PreparedOperation) :
    ExecutionTarget where
  connectionID := connection.id
  provider := if prepared.operation.responseProvider ≠ "" then prepared.operation.responseProvider
    else connection.provider
  protocol := prepared.operation.protocol
  endpoint := prepared.operation.endpointIdentity
  modelID := prepared.operation.model

def withCacheDomain (prepared : PreparedOperation) (connection : Connection A) :
    PreparedOperation :=
  { prepared with operation := { prepared.operation with
      cacheDomain := if connection.cacheDomain = "" then connection.id else connection.cacheDomain } }

end HardenLlm.Runtime
