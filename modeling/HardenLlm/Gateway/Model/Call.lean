import HardenLlm.Gateway.Model.Admission
import HardenLlm.Runtime.Model.Recovery
/-!
# A call through the gateway

The handlers of `internal/gateway/httpapi`, from the call on: the runtime
runs it, the session of a tracked request hears what happens, and a call
that fails is answered with an error and finished with a status.
-/

namespace HardenLlm.Gateway

open HardenLlm.Runtime

/-! ## Error answers -/

/-- **An error answer**: the headers that concern retries, and the body;
with diagnostics, the record its extension is read from. -/
structure ErrorResponse (A : Type) where
  status : ℕ := 502
  shouldRetry : Option String := none
  retryAfter : Option ℤ := none
  message : String := "The upstream request could not be completed."
  type : String := "server_error"
  code : String := "upstream_error"
  param : Option String := none
  harden : Option (CallRecord A) := none

/-- A code that may be shown. -/
def safeCode (value fallback : String) : String :=
  if value = "" || 128 < value.utf8ByteSize
      || !value.toList.all (fun c => c.isAlphanum || c = '_' || c = '-') then fallback
  else value

/-- **The inference may have happened**, as an error tells. -/
def uncertain (f : Fault) : Bool :=
  f.isUnconfirmed || f.provider?.any fun p => p.code = "execution_unconfirmed"

/-- The seconds a provider asked for, rounded up. -/
def retryAfterSeconds (retryAfter : ℤ) : Option ℤ :=
  if 0 < retryAfter then
    some (retryAfter / Batch.second + if retryAfter % Batch.second = 0 then 0 else 1)
  else none

variable {A : Type}

/-- The answer to a provider error. -/
def writeProviderError (p : ProviderError) (response : ErrorResponse A) : ErrorResponse A :=
  let response := { response with
    retryAfter := retryAfterSeconds p.retryAfter, code := safeCode p.code "upstream_error" }
  let response :=
    if p.status = 429 then
      { response with status := 429, type := "rate_limit_error"
                      code := safeCode p.code "rate_limit_exceeded" }
    else if 400 ≤ p.status ∧ p.status < 500 then
      { response with status := 400, type := "invalid_request_error"
                      code := safeCode p.code "upstream_rejected_request" }
    else response
  if p.category = some .timeout then
    { response with status := 504, type := "server_error", code := "upstream_timeout" }
  else response

/-- **`writeCallError`.** -/
def writeCallError (err : Fault) (record : CallRecord A) (diagnostics : Bool) : ErrorResponse A :=
  let response : ErrorResponse A :=
    { shouldRetry := if uncertain err then some "false" else none
      harden := if diagnostics then some record else none }
  if err.isCanceled then
    { response with status := 408, code := "request_canceled", message := "The request was canceled." }
  else if err.isDeadline then
    { response with status := 504, code := "request_timeout"
                    message := "The request exceeded the configured time limit." }
  else match err.validation? with
    | some v =>
      { response with status := 400, type := "invalid_request_error", code := "invalid_request"
                      message := "The request failed validation."
                      param := if v.field = "" then none else some v.field }
    | none =>
      if err.isSchemaContract then
        { response with status := 500, code := "internal_contract_error"
                        message := "The gateway generated an invalid output contract." }
      else match err.provider? with
        | some p => writeProviderError p response
        | none => response

/-! ## The end of a session -/

namespace TrackingSession

variable (s : TrackingSession)

/-- `fail`: how a call that failed is finished. A call that entered the
provider may have been carried out, unless the provider says that it
refused. -/
def fail (err : Fault) (attempts : ℕ) (now now' : ℤ) : TrackingSession :=
  let s := s.attempt attempts now
  if err.isContext then
    let code : TrackingCode := if err.isDeadline then .requestTimeout else .requestCanceled
    if s.providerEntered then s.finish .unconfirmed code false now'
    else s.finish .cancelled code true now'
  else if s.providerEntered && (err.isUnconfirmed || err.provider?.any fun p =>
      p.status = 0 || 500 ≤ p.status || p.code = "execution_unconfirmed") then
    s.finish .unconfirmed (some .upstreamError) false now'
  else s.finish .failed (some .executionFailed) true now'

end TrackingSession

/-! ## Calls -/

variable [Amounts A]

/-- **One attempt as the gateway sees it**: the answers of the runtime's
surroundings, the dispatch in the executor's place, and what the session
hears. -/
structure Exchange (A : Type) [Amounts A] where
  round : Round A
  dispatch : Dispatch A
  heard : List SessionEvent
  /-- The tracking executor tells the session of every entry. -/
  tells : heard.any (·.entersProvider) = dispatch.execute.entered
  /-- A context that has ended stays so. -/
  stays : dispatch.entering.isSome = true → round.settled.err.isSome = true

/-- What the runtime is answered. -/
def Exchange.answers (x : Exchange A) : Round A :=
  { x.round with result := x.dispatch.execute.result, failure := x.dispatch.execute.failure }

/-- A request that was registered for tracking. -/
structure Registration where
  record : TrackingRecord
  unfinished : record.finishedAt = none

/-- **A call through the gateway.** -/
structure GatewayCall (A : Type) [Amounts A] where
  inv : Invocation A
  opening : Opening A
  exchange : ℕ → Exchange A
  diagnostics : Bool := false
  registration : Option Registration := none
  /-- The clock when the session is finished. -/
  observed : ℤ
  noted : ℤ
  finished : ℤ

namespace GatewayCall

variable (g : GatewayCall A)

/-- The exchange of an attempt. -/
def exchangeOf (x : Execution A) : Exchange A := g.exchange (x.number - 1)

/-- The call runs. -/
def run : Option (Ending A) := execute g.inv g.opening fun n => (g.exchange n).answers

/-- The session when the call returns. -/
def session (registration : Registration) (e : Ending A) : TrackingSession :=
  (executions e.actions).foldl (fun s x => s.hears (g.exchangeOf x).heard)
    { record := registration.record }

/-- The error answer, if the call failed. -/
def response (e : Ending A) : Option (ErrorResponse A) :=
  e.err.map fun f => writeCallError f e.record g.diagnostics

/-- **The session of a call that failed**, finished. -/
def failed (registration : Registration) (e : Ending A) (f : Fault) : TrackingSession :=
  let attempts := max e.record.attempts.length e.record.diagnostics.attemptsUsed
  ((g.session registration e).attempt attempts g.observed).fail f e.record.attempts.length g.noted
    g.finished

end GatewayCall

end HardenLlm.Gateway
