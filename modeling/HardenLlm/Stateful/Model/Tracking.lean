import HardenLlm.Common.System
import HardenLlm.Gateway.Model.Call
import HardenLlm.Stateful.Model.Records
/-!
# A tracked call and its row

The `CHECK` constraints of `request_tracking_schema.sql`, and the session
of a tracked call under everything that reaches it: what the runtime's
observers and the progress collector tell it, and how the handler finishes
it. The session's mutex makes each of these one step; they interleave
freely, but the handler looks whether a provider was entered only once the
call has returned.
-/

namespace HardenLlm.Stateful

open HardenLlm.Gateway

/-! ## Constraints -/

/-- `AND` of conditions that may be unknown. -/
def conj : Option Bool → Option Bool → Option Bool
  | some false, _ | _, some false => some false
  | some true, some true => some true
  | _, _ => none

/-- `OR` of conditions that may be unknown. -/
def disj : Option Bool → Option Bool → Option Bool
  | some true, _ | _, some true => some true
  | some false, some false => some false
  | _, _ => none

/-- The times of a record as the database keeps them. -/
def storedTracking (r : TrackingRecord) : TrackingRecord :=
  { r with
    createdAt := toMicroseconds r.createdAt
    deadlineAt := toMicroseconds r.deadlineAt
    retentionExpiresAt := toMicroseconds r.retentionExpiresAt
    updatedAt := toMicroseconds r.updatedAt
    lastWorkerHeartbeatAt := toMicroseconds r.lastWorkerHeartbeatAt
    lastProgressAt := r.lastProgressAt.map toMicroseconds
    finishedAt := r.finishedAt.map toMicroseconds
    nextAttemptAt := r.nextAttemptAt.map toMicroseconds }

/-- The reasons a request may wait with for an attempt. -/
def retryReasons : List WaitReason := [.providerThrottled, .retryBackoff]

/-- The reasons it may wait with for a permit. -/
def admissionReasons : List WaitReason :=
  [.providerThrottled, .admissionWindow, .accountRestricted, .dispatchPending, .workflowRollover,
    .persistenceWait, .workerUnavailable, .unresolvedExecution, .poolCapacity]

def nilUUID : String := "00000000-0000-0000-0000-000000000000"

/-- A request has an outcome when it is finished. -/
def finishedConstraint (r : TrackingRecord) : Option Bool :=
  some ((r.status ∈ [TrackingStatus.running, .waiting] && r.finishedAt.isNone
      && r.outcomeConfirmed.isNone)
    || (r.status ∈ [TrackingStatus.completed, .failed, .cancelled, .unconfirmed]
      && r.finishedAt.isSome && r.outcomeConfirmed.isSome))

/-- It has a reason and a time for the next attempt only while it waits. -/
def waitingConstraint (r : TrackingRecord) : Option Bool :=
  disj
    (conj (some (r.status = .waiting)) (disj
      (conj (conj (r.stage.map (· = .retryWait)) (r.reason.map (· ∈ retryReasons)))
        (some r.nextAttemptAt.isSome))
      (conj (r.stage.map (· = .admissionWait)) (r.reason.map (· ∈ admissionReasons)))))
    (some (r.status ≠ .waiting && r.nextAttemptAt.isNone && r.reason.isNone))

/-- What is unconfirmed is not confirmed. -/
def confirmedConstraint (r : TrackingRecord) : Option Bool :=
  disj
    (disj (conj (some (r.status = .unconfirmed)) (r.outcomeConfirmed.map (· = false)))
      (conj (some (r.status ∈ [TrackingStatus.completed, .failed, .cancelled]))
        (r.outcomeConfirmed.map (· = true))))
    (some (r.status ∈ [TrackingStatus.running, .waiting]))

/-- **The `CHECK` constraints of a row**, in their order; an unknown one is
`none`. Endpoint, status, stage and error code are enumerations here. -/
def TrackingRow.constraints (t : TrackingRow) : List (Option Bool) :=
  let r := t.record
  [ some (validKeyHash t.hash)
  , some (r.id ≠ nilUUID)
  , some (r.ownerID ≠ nilUUID)
  , r.reason.map (· ∈ .retryBackoff :: .other "execution_unobserved" :: admissionReasons)
  , some (r.createdAt < r.deadlineAt)
  , some (r.retentionExpiresAt = r.deadlineAt + 24 * 3600 * Batch.second)
  , some (r.createdAt ≤ r.updatedAt)
  , some (r.createdAt ≤ r.lastWorkerHeartbeatAt)
  , r.lastProgressAt.map (r.createdAt ≤ ·)
  , r.finishedAt.map (r.createdAt ≤ ·)
  , some (0 ≤ r.attemptsUsed)
  , some (0 < r.revision)
  , finishedConstraint r
  , waitingConstraint r
  , confirmedConstraint r ]

/-- **The constraints admit a row** as it is stored: none is false. -/
def TrackingRow.checks (t : TrackingRow) : Bool :=
  (TrackingRow.constraints ⟨t.hash, storedTracking t.record⟩).all (· ≠ some false)

/-! ## The tracked call -/

/-- How a call is finished. -/
structure Outcome where
  status : TrackingStatus
  code : Option TrackingCode
  confirmed : Bool
  deriving DecidableEq, Repr

/-- What `fail` decides once it has looked whether a provider was
entered. -/
def failureOutcome (entered : Bool) (err : Runtime.Fault) : Outcome :=
  if err.isContext then
    let code : TrackingCode := if err.isDeadline then .requestTimeout else .requestCanceled
    if entered then ⟨.unconfirmed, code, false⟩ else ⟨.cancelled, code, true⟩
  else if entered && (err.isUnconfirmed || err.provider?.any fun p =>
      p.status = 0 || 500 ≤ p.status || p.code = "execution_unconfirmed") then
    ⟨.unconfirmed, some .upstreamError, false⟩
  else ⟨.failed, some .executionFailed, true⟩

/-- **A tracked call**: its session, what its handler has decided to finish
it with, and how often a provider was entered before it was finished. -/
structure Tracked where
  session : TrackingSession
  pending : Option Outcome := none
  entries : ℕ := 0

/-- **What reaches the session.** -/
inductive TrackedEvent
  | hear (e : SessionEvent)
  /-- `fail` looks whether a provider was entered. -/
  | failing (err : Runtime.Fault)
  /-- `fail` finishes. -/
  | failed (now : ℤ)
  /-- The response cannot be projected. -/
  | projectionFailed (now : ℤ)
  /-- The response is projected. -/
  | completed (now : ℤ)
  /-- `close`. -/
  | closed (now : ℤ)

namespace Tracked

/-- What may happen: waits have one of the observer's two reasons, and
`fail` begins once the call has returned, after which no provider is
entered. -/
def Allows (s : Tracked) : TrackedEvent → Prop
  | .hear (.wait reason _ _ _) => reason ∈ retryReasons
  | .hear e => s.pending = none ∨ e.entersProvider = false
  | .failing _ => s.pending = none
  | .failed _ => s.pending ≠ none
  | _ => True

/-- The call after an event. -/
def next (s : Tracked) : TrackedEvent → Tracked
  | .hear e =>
    { s with
      session := s.session.hear e
      entries := if e.entersProvider ∧ s.session.record.finishedAt = none then s.entries + 1
        else s.entries }
  | .failing err => { s with pending := some (failureOutcome s.session.providerEntered err) }
  | .failed now =>
    match s.pending with
    | none => s
    | some o => { s with session := s.session.finish o.status o.code o.confirmed now }
  | .projectionFailed now =>
    { s with session := s.session.finish .failed (some .responseProjectionError) true now }
  | .completed now => { s with session := s.session.finish .completed none true now }
  | .closed now =>
    { s with session := s.session.finish .unconfirmed (some .executionUnobserved) false now }

/-- **A transition of the session**: a phase, a wait, an end function that
takes effect, or a finish. -/
def Transition (s : Tracked) : TrackedEvent → Prop
  | .hear (.phase stage _) =>
    stage ∈ [TrackingStage.preparing, .providerAttempt, .validation, .responseProjection]
  | .hear (.admissionWait reason _ _) => reason ∈ admissionReasons
  | .hear (.wait _ _ _ _) => True
  | .hear (.resume epoch _) => epoch = s.session.epoch
  | .hear _ | .failing _ => False
  | _ => True

end Tracked

/-- **The session of a registered request**, from its first record on. -/
def tracked (record : TrackingRecord) : System Tracked where
  init s := s = { session := { record := record } }
  step s s' := ∃ e, s.Allows e ∧ s' = s.next e

end HardenLlm.Stateful
