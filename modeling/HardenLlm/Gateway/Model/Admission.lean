import HardenLlm.Gateway.Model.Tracking
import HardenLlm.Runtime.Model.Execute
/-!
# The admission executor

`stateful/cpa_admission.go` between the runtime and the provider. A
managed request is executed under a permit, and what is observed of its
dispatch goes to the ledger; where the provider may have done the work all
the same, the error that the runtime gets is marked and its category does
not invite another attempt. Other requests go to the provider directly.
-/

namespace HardenLlm

namespace Runtime

variable {A : Type}

/-! ## What the batch package reads -/

/-- What the batch package reads of an error. -/
def Fault.execution (f : Fault) : Batch.ExecutionError where
  provider := f.provider?.map fun p =>
    { status := p.status, code := p.code, retryAfter := p.retryAfter
      network := p.category = some .network }
  canceled := f.isCanceled
  deadlineExceeded := f.isDeadline

def UsageStatus.text : UsageStatus → String
  | .unset => ""
  | .complete => "complete"
  | .partially => "partial"
  | .unavailable => "unavailable"
  | .inconsistent => "inconsistent"
  | .unknown text => text

/-- What the batch package reads of a result. -/
def ProviderResult.dispatched (r : ProviderResult A) : Batch.ProviderResult where
  assistantText := r.assistantText
  stream := r.stream.toStreamDiagnostics
  usage :=
    { status := r.accounting.usage.status.text
      promptTokens := r.accounting.usage.promptTokens
      completionTokens := r.accounting.usage.completionTokens
      reasoningTokens := r.accounting.usage.reasoningTokens
      cacheReadTokens := r.accounting.usage.cacheReadTokens }

/-- The provider error found, of no category that is retried; what stood
around it is left out. -/
def Fault.uncategorized (f : Fault) : Fault :=
  match f.providerFault? with
  | some (.provider p cause) => .provider { p with category := some .other } cause
  | some (.bare p) => .bare { p with category := some .other }
  | _ => f

/-- Go's zero result. -/
def noResult [Amounts A] : ProviderResult A where
  accounting := ⟨{}, ⟨Amounts.zero, .unset, "", 0, 0⟩⟩

end Runtime

namespace Gateway

open HardenLlm.Runtime

variable {A : Type} [Amounts A]

/-- **`ObserveProviderDispatch`**, its error: it is marked where the
outcome is not confirmed. -/
def markedFailure (result : ProviderResult A) (failure : Option Fault) : Option Fault :=
  let out := Batch.observeProviderDispatch result.dispatched (failure.map (·.execution))
  failure.map fun f => if out.kind = .unconfirmed then .unconfirmed f.uncategorized else f

/-! ## Dispatches -/

/-- What comes back from the provider. -/
inductive Reply (A : Type)
  | returned (result : ProviderResult A) (failure : Option Fault)
  | panicked

/-- **The answers during a managed dispatch**: what `begin` returned; the
context once the permit is claimed, and as the tracking executor finds it;
the provider's reply, and the clock. -/
structure ManagedDispatch (A : Type) where
  begun : Except Fault Batch.Attempt
  authorized : Option ContextError := none
  entering : Option ContextError := none
  reply : Reply A
  timing : Batch.Timing

/-- A dispatch, through admission or not. A direct one that panics ends
the handler, so it returns here. -/
inductive Dispatch (A : Type)
  | managed (d : ManagedDispatch A)
  | direct (entering : Option ContextError) (result : ProviderResult A) (failure : Option Fault)

/-- **What a dispatch leaves**: its result, its error, what was observed
of it, and whether the provider was entered. -/
structure Dispatched (A : Type) where
  result : ProviderResult A
  failure : Option Fault
  observation : Option Batch.AttemptObservation
  entered : Bool

/-- The tracking executor in front of the provider. -/
def track (entering : Option ContextError) (reply : Reply A) : Reply A × Bool :=
  match entering with
  | some e => (.returned noResult (some e.fault), false)
  | none => (reply, true)

/-- The error of an invocation that panicked. -/
def executionUnconfirmed : Fault :=
  .providerError "execution_unconfirmed" .other "CPA invocation stopped reporting its outcome"

/-- The call returned after its generation deadline. -/
def returnedLate (a : Batch.Attempt) (failure : Option Fault) (finished : ℤ) : Bool :=
  failure.isNone && a.generationDeadline.any (· < finished)

/-- **`admissionExecutor.Execute`** for a managed request. -/
def ManagedDispatch.execute (d : ManagedDispatch A) : Dispatched A :=
  match d.begun with
  | .error f => ⟨noResult, some f, none, false⟩
  | .ok a =>
    let observed (out : Batch.Outcome) (nativeEntered stopped : Bool) :=
      some (Batch.ordinaryObservation a out nativeEntered stopped d.timing)
    match d.authorized with
    | some e => ⟨noResult, some e.fault, observed { kind := .neverDispatched } false false, false⟩
    | none =>
      match track d.entering d.reply with
      | (.panicked, entered) =>
        ⟨noResult, some executionUnconfirmed, observed Batch.ordinaryPanicked true false, entered⟩
      | (.returned result failure, entered) =>
        let out := Batch.dispatchedOutcome a result.dispatched (failure.map (·.execution))
          d.timing.finished
        let err := if returnedLate a failure d.timing.finished then some .deadlineExceeded
          else markedFailure result failure
        ⟨result, err, observed out true true, entered⟩

/-- **`admissionExecutor.Execute`.** -/
def Dispatch.execute : Dispatch A → Dispatched A
  | .managed d => d.execute
  | .direct entering result failure =>
    match entering with
    | some e => ⟨noResult, some e.fault, none, false⟩
    | none => ⟨result, failure, none, true⟩

/-- The context had ended at the provider's door. -/
def Dispatch.entering : Dispatch A → Option ContextError
  | .managed d => d.entering
  | .direct entering _ _ => entering

/-- The provider answered in full, but after its generation deadline. -/
def Dispatch.late : Dispatch A → Bool
  | .managed d =>
    match d.begun, d.reply with
    | .ok a, .returned _ failure =>
      d.entering.isNone && returnedLate a failure d.timing.finished
    | _, _ => false
  | .direct _ _ _ => false

/-- The provider may have done the work: what is recorded of the dispatch
does not confirm its outcome. -/
def Dispatch.unconfirmed (d : Dispatch A) : Bool :=
  d.execute.observation.any fun o => o.outcome.kind = .unconfirmed

end Gateway

end HardenLlm
