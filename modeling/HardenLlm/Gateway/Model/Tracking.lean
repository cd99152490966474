import HardenLlm.Runtime.Model.Types
/-!
# Request tracking

`stateful/request_tracking.go` and `request_tracking_session.go`: a
tracked request has a record, which a session keeps while the call runs.
Observers and the collector tell the session what happens, in any order;
the handler finishes it. Every operation comes with the clock reading it
takes; a stored time never goes back.
-/

namespace HardenLlm.Gateway

/-! ## Records -/

inductive TrackingStatus
  | running
  | waiting
  | completed
  | failed
  | cancelled
  | unconfirmed
  deriving DecidableEq, Repr

inductive TrackingStage
  | preparing
  | providerAttempt
  | validation
  | responseProjection
  | retryWait
  | admissionWait
  deriving DecidableEq, Repr

/-- Why a request waits; the pool's reasons come from the database as
text. -/
inductive WaitReason
  | providerThrottled
  | retryBackoff
  | admissionWindow
  | accountRestricted
  | dispatchPending
  | workflowRollover
  | persistenceWait
  | workerUnavailable
  | unresolvedExecution
  | poolCapacity
  | other (text : String)
  deriving DecidableEq, Repr

inductive TrackingCode
  | upstreamError
  | requestTimeout
  | requestCanceled
  | responseProjectionError
  | executionUnobserved
  | executionFailed
  deriving DecidableEq, Repr

inductive Endpoint
  | responses
  | chatCompletions
  deriving DecidableEq, Repr

/-- **What is stored of a tracked request.** -/
structure TrackingRecord where
  id : String
  endpoint : Endpoint
  status : TrackingStatus
  stage : Option TrackingStage
  reason : Option WaitReason := none
  createdAt : ℤ
  deadlineAt : ℤ
  retentionExpiresAt : ℤ
  updatedAt : ℤ
  lastWorkerHeartbeatAt : ℤ
  lastProgressAt : Option ℤ := none
  finishedAt : Option ℤ := none
  nextAttemptAt : Option ℤ := none
  attemptsUsed : ℤ := 0
  outcomeConfirmed : Option Bool := none
  errorCode : Option TrackingCode := none
  ownerID : String
  revision : ℤ := 1
  deriving DecidableEq, Repr

/-- A canonical UUID in lower case, other than the nil one. -/
def validTrackingID (id : String) : Bool :=
  let cs := id.toList
  let dashes : List ℕ := [8, 13, 18, 23]
  cs.length = 36
    && (cs.zipIdx.all fun (c, i) =>
      if i ∈ dashes then c = '-' else c.isDigit || ('a' ≤ c && c ≤ 'f'))
    && id ≠ "00000000-0000-0000-0000-000000000000"

/-- `NewTrackingRecord`; the owner is a fresh UUID, if there was one. -/
def newTrackingRecord (id : String) (endpoint : Endpoint) (now deadline : ℤ) (owner : Option String) :
    Option TrackingRecord :=
  if !validTrackingID id || ¬ now < deadline then none
  else owner.map fun owner =>
    { id := id
      endpoint := endpoint
      status := .running
      stage := some .preparing
      createdAt := now
      deadlineAt := deadline
      retentionExpiresAt := deadline + 24 * 3600 * Batch.second
      updatedAt := now
      lastWorkerHeartbeatAt := now
      ownerID := owner }

/-- A stored time never goes back. -/
def trackingTime (now previous : ℤ) : ℤ := if now < previous then previous else now

/-! ## Sessions -/

/-- **A session**: the record of a running call. `epoch` counts the
transitions, so that the end of a wait can tell whether it is still
current. -/
structure TrackingSession where
  record : TrackingRecord
  epoch : ℕ := 0
  sequence : ℕ := 0
  received : ℤ := 0
  events : ℤ := 0
  providerEntered : Bool := false
  deriving DecidableEq, Repr

namespace TrackingSession

variable (s : TrackingSession)

/-- Something about the request changed. -/
def changed (now : ℤ) : TrackingSession :=
  let now := trackingTime now s.record.updatedAt
  { s with record := { s.record with
      updatedAt := now, lastProgressAt := some now, revision := s.record.revision + 1 } }

/-- The request is under way, at this stage. -/
def phase (stage : TrackingStage) (now : ℤ) : TrackingSession :=
  if s.record.finishedAt.isSome then s
  else if stage ∉ [TrackingStage.preparing, .providerAttempt, .validation, .responseProjection] then s
  else
    let s := { s with
      providerEntered := s.providerEntered || stage = .providerAttempt, epoch := s.epoch + 1 }
    if s.record.stage = some stage ∧ s.record.status = .running then s
    else
      changed { s with record := { s.record with
        status := .running, stage := some stage, reason := none, nextAttemptAt := none } } now

def attempt (n : ℤ) (now : ℤ) : TrackingSession :=
  if s.record.finishedAt.isNone ∧ s.record.attemptsUsed < n then
    changed { s with record := { s.record with attemptsUsed := n } } now
  else s

/-- The request waits for a permit. -/
def admissionWait (reason : WaitReason) (next : Option ℤ) (now : ℤ) : TrackingSession :=
  match reason with
  | .retryBackoff | .other _ => s
  | reason =>
    if s.record.finishedAt.isSome then s
    else if s.record.status = .waiting ∧ s.record.stage = some .admissionWait
        ∧ s.record.reason = some reason ∧ s.record.nextAttemptAt = next then s
    else
      changed { s with
        epoch := s.epoch + 1
        record := { s.record with
          status := .waiting, stage := some .admissionWait, reason := some reason
          nextAttemptAt := next } } now

/-- The request waits before an attempt; `planned` is the clock when the
time is set. -/
def wait (reason : WaitReason) (delay planned now : ℤ) : TrackingSession :=
  if s.record.finishedAt.isSome then s
  else
    changed { s with
      epoch := s.epoch + 1
      record := { s.record with
        status := .waiting, stage := some .retryWait, reason := some reason
        nextAttemptAt := some (trackingTime planned s.record.updatedAt + max delay 0) } } now

/-- The function a wait returned, for its end: `epoch` is the wait's. -/
def resume (epoch : ℕ) (now : ℤ) : TrackingSession :=
  if s.record.finishedAt.isSome ∨ s.epoch ≠ epoch then s
  else
    changed { s with
      epoch := s.epoch + 1
      record := { s.record with
        status := .running, stage := some .preparing, reason := none, nextAttemptAt := none } } now

/-- A progress event. -/
def progress (p : Runtime.ProgressEvent) (now : ℤ) : TrackingSession :=
  if s.record.finishedAt.isSome ∨ p.sequence ≤ s.sequence then s
  else
    let moved := s.record.attemptsUsed < p.attemptsUsed || s.received < p.receivedBytes
      || s.events < p.eventCount
    let s := { s with
      sequence := p.sequence
      received := max s.received p.receivedBytes
      events := max s.events p.eventCount
      record := { s.record with attemptsUsed := max s.record.attemptsUsed p.attemptsUsed } }
    if moved then s.changed now else s

/-- **The outcome.** -/
def finish (status : TrackingStatus) (code : Option TrackingCode) (confirmed : Bool) (now : ℤ) :
    TrackingSession :=
  if s.record.finishedAt.isSome then s
  else if status = .running ∨ status = .waiting then s
  else
    let s := changed { s with record := { s.record with
      status := status, reason := none, nextAttemptAt := none, outcomeConfirmed := some confirmed
      errorCode := code.or s.record.errorCode } } now
    { s with
      epoch := s.epoch + 1
      record := { s.record with
        finishedAt := some s.record.updatedAt, lastWorkerHeartbeatAt := s.record.updatedAt } }

/-- The record is read, perhaps as a sign of life. -/
def snapshot (heartbeat : Bool) (now : ℤ) : TrackingSession :=
  if heartbeat ∧ s.record.finishedAt.isNone then
    let now := trackingTime now s.record.updatedAt
    { s with record := { s.record with
        lastWorkerHeartbeatAt := now, updatedAt := now, revision := s.record.revision + 1 } }
  else s

end TrackingSession

/-- **What a session is told** while its call runs. -/
inductive SessionEvent
  | phase (stage : TrackingStage) (now : ℤ)
  | attempt (n : ℤ) (now : ℤ)
  | admissionWait (reason : WaitReason) (next : Option ℤ) (now : ℤ)
  | wait (reason : WaitReason) (delay planned now : ℤ)
  | resume (epoch : ℕ) (now : ℤ)
  | progress (p : Runtime.ProgressEvent) (now : ℤ)
  | snapshot (heartbeat : Bool) (now : ℤ)
  deriving DecidableEq, Repr

namespace TrackingSession

variable (s : TrackingSession)

def hear : SessionEvent → TrackingSession
  | .phase stage now => s.phase stage now
  | .attempt n now => s.attempt n now
  | .admissionWait reason next now => s.admissionWait reason next now
  | .wait reason delay planned now => s.wait reason delay planned now
  | .resume epoch now => s.resume epoch now
  | .progress p now => s.progress p now
  | .snapshot heartbeat now => s.snapshot heartbeat now

/-- A session that is told several things. -/
def hears (events : List SessionEvent) : TrackingSession := events.foldl hear s

end TrackingSession

/-- The provider is entered. -/
def SessionEvent.entersProvider : SessionEvent → Bool
  | .phase .providerAttempt _ => true
  | _ => false

end HardenLlm.Gateway
