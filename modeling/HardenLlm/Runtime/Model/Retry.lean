import Mathlib.Data.Rat.Defs
import HardenLlm.Common.Json
import HardenLlm.Runtime.Model.Accounting
/-!
# Errors, classification and recovery policies

The package `retry`: errors with the chains that `errors.Is` and
`errors.As` walk, the category under which a failed attempt is retried, the
policy that says how often and with which targets, and the delay between
two attempts. Durations are nanoseconds.
-/

namespace HardenLlm.Runtime

/-! ## Errors -/

/-- Why an attempt ended as it did. -/
inductive Category
  | success
  | network
  | rateLimit
  | server
  | empty
  | provider
  | parse
  | refusal
  | timeout
  | canceled
  | other
  deriving DecidableEq, Repr

/-- `ProviderError`, without the error it wraps; a category that was not
assigned is `none`. -/
structure ProviderError where
  category : Option Category := none
  code : String := ""
  typeName : String := ""
  providerRequestID : String := ""
  rawResponse : String := ""
  status : ℤ := 0
  retryAfter : ℤ := 0
  deriving DecidableEq, Repr

structure ValidationError where
  field : String
  message : String
  deriving DecidableEq, Repr

def ValidationError.text (v : ValidationError) : String := v.field ++ ": " ++ v.message

/-- **An error with its chain.** `wrap` and `join` stand for any wrapper
of one error or of two; `bare` is a provider error that wraps none, and
`unconfirmed` is the batch package's marker. -/
inductive Fault
  | canceled
  | deadlineExceeded
  | plain (text : String)
  | wrap (text : String) (cause : Fault)
  | join (first second : Fault)
  | provider (p : ProviderError) (cause : Fault)
  | bare (p : ProviderError)
  | unconfirmed (cause : Fault)
  | validation (v : ValidationError)
  | schemaContract (text : String)
  | cacheIntegrity
  deriving DecidableEq, Repr

namespace Fault

/-- `Error()`. -/
def text : Fault → String
  | .canceled => "context canceled"
  | .deadlineExceeded => "context deadline exceeded"
  | .plain text | .schemaContract text => text
  | .wrap text _ => text
  | .join first second => first.text ++ "\n" ++ second.text
  | .provider _ cause | .unconfirmed cause => cause.text
  | .bare p =>
    if p.code ≠ "" then p.code
    else if p.status ≠ 0 then "provider returned HTTP " ++ toString p.status
    else "provider error"
  | .validation v => v.text
  | .cacheIntegrity => "CACHE_INTEGRITY"

/-- What `errors.As` finds: the value at the first error of the chain that
has one, depth first. -/
def find {α : Type} (at? : Fault → Option α) : Fault → Option α
  | .wrap text cause => (at? (.wrap text cause)).or (cause.find at?)
  | .join first second =>
    ((at? (.join first second)).or (first.find at?)).or (second.find at?)
  | .provider p cause => (at? (.provider p cause)).or (cause.find at?)
  | .unconfirmed cause => (at? (.unconfirmed cause)).or (cause.find at?)
  | f => at? f

/-- `errors.As` for a provider error. -/
def provider? : Fault → Option ProviderError :=
  find fun
    | .provider p _ | .bare p => some p
    | _ => none

/-- The provider error found, with what it wraps. -/
def providerFault? : Fault → Option Fault :=
  find fun
    | .provider p cause => some (.provider p cause)
    | .bare p => some (.bare p)
    | _ => none

def validation? : Fault → Option ValidationError :=
  find fun
    | .validation v => some v
    | _ => none

/-- `errors.Is(err, context.Canceled)`. -/
def isCanceled (f : Fault) : Bool :=
  (f.find fun
    | .canceled => some ()
    | _ => none).isSome

/-- `errors.Is(err, context.DeadlineExceeded)`. -/
def isDeadline (f : Fault) : Bool :=
  (f.find fun
    | .deadlineExceeded => some ()
    | _ => none).isSome

/-- The call's context ended. -/
def isContext (f : Fault) : Bool := f.isCanceled || f.isDeadline

/-- `errors.As` for the marker of an unconfirmed inference. -/
def isUnconfirmed (f : Fault) : Bool :=
  (f.find fun
    | .unconfirmed _ => some ()
    | _ => none).isSome

def isSchemaContract (f : Fault) : Bool :=
  (f.find fun
    | .schemaContract _ => some ()
    | _ => none).isSome

/-- A provider error with a message of its own. -/
def providerError (code : String) (category : Category) (cause : String) : Fault :=
  .provider { code := code, category := some category } (.plain cause)

end Fault

/-! ## Policies -/

/-- Where a recovery leaf takes its settings from. -/
inductive Source
  | generation
  | model
  | unknown (text : String)
  deriving DecidableEq, Repr

/-- Free-form provider options; a missing map is `none` at its users. -/
abbrev Options := List (String × Json)

/-- **One leaf of a recovery plan.** -/
structure RecoveryTarget where
  connectionID : String := ""
  source : Source
  modelID : String := ""
  reasoningEffort : String := ""
  providerOptions : Option Options := none

structure RepairPlan where
  initial : RecoveryTarget
  escalation : Option RecoveryTarget

structure RerunPlan where
  target : RecoveryTarget
  jsonRepair : Option RepairPlan

structure Backoff where
  baseDelayMS : ℤ
  maxDelayMS : ℤ
  deriving DecidableEq, Repr

/-- **The recovery policy of a call.** -/
structure Policy where
  maxAttempts : ℤ
  retryOn : Option (List Category)
  backoff : Backoff
  jsonRepair : Option RepairPlan := none
  rerun : Option RerunPlan := none
  explicitPlan : Bool := false

def Policy.usesExplicitPlan (p : Policy) : Bool :=
  p.explicitPlan || p.jsonRepair.isSome || p.rerun.isSome

def Policy.allows (p : Policy) (category : Category) : Bool := (p.retryOn.getD []).contains category

/-! ### Validation -/

/-- The lower case of a letter; besides the ASCII letters, the two other
letters whose lower case is one. -/
def lowerChar (c : Char) : Char :=
  if c.toNat = 0x130 then 'i' else if c.toNat = 0x212A then 'k' else c.toLower

/-- `strings.ToLower`, as far as a comparison with ASCII text can tell. -/
def lower (s : String) : String := String.ofList (s.toList.map lowerChar)

/-- The key without dashes and underscores, in lower case. -/
def normalizedKey (key : String) : String :=
  lower (String.ofList (key.toList.filter fun c => c ≠ '-' && c ≠ '_'))

/-- A key under which a credential could stand. -/
def isSecretKey (key : String) : Bool :=
  let normalized := normalizedKey key
  ["authorization", "apikey", "credential", "password", "secret"].any
      (fun start => start.toList.isPrefixOf normalized.toList)
    || ["token", "accesstoken", "authtoken", "bearertoken", "clienttoken", "idtoken",
      "refreshtoken", "sessiontoken"].contains normalized

def containsRecoverySecretKey (options : Options) : Bool := Json.hasKeyFields isSecretKey options

/-- The options' own limits, or what they break. -/
def validateTargetProviderOptions (options : Options) : Option String :=
  if 32 * 1024 < (Json.obj options).encode.utf8ByteSize then
    some "providerOptions exceeds the 32 KiB limit"
  else if containsRecoverySecretKey options then
    some "providerOptions may not contain credential material"
  else none

/-- The keys that belong in a recovery policy. -/
def recoveryControls : List String :=
  ["maxAttempts", "maxRetries", "max_retries", "baseDelayMs", "maxDelayMs", "initialBackoffMs",
    "maximumBackoffMs", "enableRetryOn429", "enableRetryOn5xx", "enableRetryOnNetworkError",
    "enableRetryOnParseError", "structuredRepairRetry", "structuredRepair", "retryNetwork",
    "retryRateLimit", "retryServerError", "retryEmpty", "retryParse", "repairEscalation",
    "backupProfiles", "retryPolicy", "recoveryPolicy", "repairInvalidOutput", "jsonRepair", "rerun",
    "escalation", "cache", "cacheMode", "cacheVersion", "search", "webSearch", "model", "modelId",
    "reasoningEffort"]

/-- `ValidateProviderOptions`: the error's text. -/
def validateProviderOptions (options : Options) : Option String :=
  match recoveryControls.find? fun key => options.any fun e => e.1 = key with
  | some key => some ("providerOptions." ++ key ++ ": recovery controls belong in recoveryPolicy")
  | none => validateTargetProviderOptions options

/-- The first check that fails. -/
def RecoveryTarget.validate (t : RecoveryTarget) (field : String) (allowGeneration : Bool) :
    Option ValidationError :=
  let invalid (message : String) : Option ValidationError := some ⟨field, message⟩
  if t.source ≠ .model ∧ ¬ (allowGeneration ∧ t.source = .generation) then
    invalid "source must be model or generation"
  else if t.source = .model ∧ trimSpace t.modelID = "" then
    invalid "modelId is required for a model target"
  else if t.source = .generation ∧ (t.connectionID ≠ "" ∨ t.modelID ≠ "" ∨ t.reasoningEffort ≠ ""
      ∨ (t.providerOptions.getD []).length ≠ 0) then
    invalid "generation target cannot override request settings"
  else if 128 < t.connectionID.utf8ByteSize ∨ trimSpace t.connectionID ≠ t.connectionID
      ∨ 512 < t.modelID.utf8ByteSize ∨ 128 < t.reasoningEffort.utf8ByteSize then
    invalid "target identifiers exceed their limits"
  else match t.providerOptions with
    | none => none
    | some options =>
      ((validateProviderOptions options).or (validateTargetProviderOptions options)).map
        fun message => ⟨field, message⟩

def RepairPlan.validate (p : RepairPlan) (field : String) : Option ValidationError :=
  (p.initial.validate (field ++ ".initial") true).or
    (p.escalation.bind fun t => t.validate (field ++ ".escalation") true)

def RerunPlan.validate (p : RerunPlan) (field : String) : Option ValidationError :=
  ((p.target.validate (field ++ ".target") false).or
    (if p.target.source ≠ .model then
      some ⟨field ++ ".target.source", "rerun target must be a model target"⟩ else none)).or
    (p.jsonRepair.bind fun plan => plan.validate (field ++ ".jsonRepair"))

/-- The retry categories: supported, and each once. -/
def validateRetryOn : List Category → List Category → Option String
  | _, [] => none
  | before, category :: rest =>
    if category ∉ [Category.network, .rateLimit, .server, .empty, .provider] then
      some "contains an unsupported retry category"
    else if category ∈ before then some "categories must be unique"
    else validateRetryOn (before ++ [category]) rest

/-- **The policy's first defect.** -/
def Policy.validate (p : Policy) : Option ValidationError :=
  let invalid (field message : String) : Option ValidationError :=
    some ⟨"recoveryPolicy." ++ field, message⟩
  if p.maxAttempts < 1 ∨ 10 < p.maxAttempts then
    invalid "maxAttempts" "must be an integer from 1 through 10"
  else match p.retryOn with
    | none => invalid "retryOn" "must be an explicit array; use [] to disable retries"
    | some categories =>
      match validateRetryOn [] categories with
      | some message => invalid "retryOn" message
      | none =>
        if p.backoff.baseDelayMS < 0 ∨ 60000 < p.backoff.baseDelayMS then
          invalid "backoff.baseDelayMs" "must be an integer from 0 through 60000"
        else if p.backoff.maxDelayMS < p.backoff.baseDelayMS ∨ 600000 < p.backoff.maxDelayMS then
          invalid "backoff.maxDelayMs" "must be at least baseDelayMs and at most 600000"
        else (p.jsonRepair.bind fun plan => plan.validate "recoveryPolicy.jsonRepair").or
          (p.rerun.bind fun plan => plan.validate "recoveryPolicy.rerun")

/-! ## Classification -/

/-- **How a failed attempt is treated.** -/
structure Classification where
  retryable : Bool := false
  category : Category
  status : ℤ := 0
  retryAfter : ℤ := 0
  code : String := ""
  typeName : String := ""
  providerRequestID : String := ""
  deriving DecidableEq, Repr

def categoryForCode (code : String) : Category :=
  let code := lower (trimSpace code)
  if code ∈ ["etimedout", "econnreset", "enotfound", "eai_again", "epipe", "econnaborted",
      "network_error", "web_search_network", "provider_response_read"] then .network
  else if code ∈ ["empty_response", "web_search_empty"] then .empty
  else if code = "provider_retry" then .provider
  else if code ∈ ["server_is_overloaded", "service_unavailable", "server_error"] then .server
  else if code ∈ ["provider_refusal", "web_search_tool_error"] then .refusal
  else if code = "structured_parse" then .parse
  else if code ∈ ["provider_request_timeout", "web_search_timeout"] then .timeout
  else .other

/-- A category that is retried where the policy allows it. -/
def Policy.retries (policy : Policy) (category : Category) : Bool :=
  policy.allows category && category ≠ .other && category ≠ .parse && category ≠ .refusal
    && category ≠ .timeout && category ≠ .canceled

/-- The category of a provider error, and whether it is retried. -/
def ProviderError.verdict (p : ProviderError) (policy : Policy) : Category × Bool :=
  match p.category with
  | some category => (category, policy.retries category)
  | none =>
    if p.status = 429 then (.rateLimit, policy.allows .rateLimit)
    else if 500 ≤ p.status ∧ p.status ≤ 599 then (.server, policy.allows .server)
    else if p.status ≠ 0 ∧ (p.status < 200 ∨ 299 < p.status) then (.other, false)
    else (categoryForCode p.code, policy.retries (categoryForCode p.code))

/-- **`Classify`.** -/
def classify (err : Option Fault) (policy : Policy) : Classification :=
  match err with
  | none => { category := .success }
  | some f =>
    if f.isCanceled then { category := .canceled }
    else if f.isDeadline then { category := .timeout }
    else match f.provider? with
      | none => { category := .other }
      | some p =>
        { retryable := (p.verdict policy).2
          category := (p.verdict policy).1
          status := p.status
          retryAfter := max p.retryAfter 0
          code := p.code
          typeName := p.typeName
          providerRequestID := p.providerRequestID }

/-! ## Delays -/

/-- The window doubled, up to the maximum. -/
def growWindow (maximum : ℤ) : ℕ → ℤ → ℤ
  | 0, window => window
  | steps + 1, window =>
    if window < maximum then
      if maximum / 2 < window then maximum else growWindow maximum steps (2 * window)
    else window

/-- A random number that is not finite counts as zero. -/
def clampRandom (random : Option ℚ) : ℚ :=
  match random with
  | none => 0
  | some r => if r < 0 then 0 else if 1 < r then 1 else r

/-- **The delay after an attempt**: jitter within the window, and never
less than the provider asked for. The product is exact, where the source
multiplies `float64`s. -/
def delay (attempt : ℕ) (retryAfter : ℤ) (backoff : Backoff) (random : Option ℚ) : ℤ :=
  let maximum := max backoff.maxDelayMS 0
  let window := growWindow maximum (attempt - 1) (min (max backoff.baseDelayMS 0) maximum)
  let jitter := ((window : ℚ) * clampRandom random).floor
  max (jitter * Batch.millisecond) (max retryAfter 0)

end HardenLlm.Runtime
