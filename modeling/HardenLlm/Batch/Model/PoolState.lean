import HardenLlm.Common.Slots
import HardenLlm.Batch.Model.Controller
/-!
# The pool's state

`pool_state.go` and `recovery_jitter.go`: the permits a pool has out, the
grants not yet reserved, and the admission windows and episodes they
belong to. Two hashes of the standard library are parameters: the UUID of
a permit's name and the digest that pads a recovery floor.
-/

namespace HardenLlm.Batch

/-- What the pool takes from hash functions. `uuid` is
`uuid.NewSHA1(NameSpaceOID, ·).String()`, the canonical text of a UUID with
its version bits set; `digest` is the first eight bytes of the SHA-256 of a
recovery seed, which is made of the pool, the episode, the probe, the policy
revision and the floor. -/
structure Hashes where
  uuid : String → String
  uuid_valid : ∀ name, validPermitID (uuid name) = true
  digest : String → ℤ → String → ℤ → ℤ → ℕ

/-- A permit the pool has out. -/
structure PoolPermit where
  id : String
  revision : ℤ := 0
  applied : Bool := false
  awaitingStop : Bool := false
  claimed : Bool := false
  deriving DecidableEq, Repr

structure RecoveryPadding where
  floor : ℤ
  expiry : ℤ
  deriving DecidableEq, Repr

structure PoolState where
  poolID : String
  generation : ℤ
  controller : Controller
  sequence : ℤ := 0
  policyRevision : ℤ := 1
  episode : ℤ := 1
  windowID : ℤ := 1
  windowAnchored : Bool := false
  outstanding : List PoolPermit := []
  startIntents : List Reservation := []
  probeID : String := ""
  probeClaimAt : ℤ := 0
  dispatchNeedsReady : Bool := false
  dispatchBlockedUntil : ℤ := 0
  dispatchBackoff : ℤ := 2 * second
  quiescing : Bool := false
  persistenceWait : Bool := false
  requestRetirements : List String := []
  coalesceDispatchFailures : Bool := true
  pendingClaimLimit : ℤ := 32
  recoveryJitterVersion : ℤ := 1
  recoveryPadding : Option RecoveryPadding := none
  deriving DecidableEq, Repr

/-- `NewPoolState`. -/
def PoolState.new (pool : String) (generation : ℤ) (policy : Policy) : PoolState :=
  { poolID := pool, generation := generation, controller := .new policy }

/-- An item `SelectReady` offers. The Go field `Kind` is empty for a job
item; a grant refuses any other text. -/
structure ReadyItem where
  kind : Kind := .job
  requestID : String := ""
  ref : Ref
  budgetMS : ℤ
  deadline : ℤ
  readyAt : ℤ
  deriving DecidableEq, Repr

/-- `maximumStartIntents`. -/
def maximumStartIntents : ℕ := 64

namespace PoolState

variable (H : Hashes) (s : PoolState)

def pendingClaimsFull : Bool :=
  s.pendingClaimLimit ≠ 0 ∧ s.pendingClaimLimit ≤ (s.outstanding.countP fun p => !p.claimed : ℕ)

/-- A window that has run out closes, and the next one opens unanchored. -/
def refreshWindow (now : ℤ) : PoolState :=
  if s.windowAnchored ∧ 0 < s.controller.policy.windowRequests
      ∧ s.controller.windowStart + s.controller.policy.windowDuration ≤ now then
    { s with
      windowID := s.windowID + 1
      windowAnchored := false
      controller := { s.controller with
        windowStart := 0
        windowStarts := 0
        burstLeft := if ¬ s.controller.cooling ∧ s.controller.refillWindowBurst
          then s.controller.policy.burst else s.controller.burstLeft } }
  else s

/-- Some settled permit has not been seen to stop. -/
def unresolved : Bool := s.outstanding.any fun p => p.awaitingStop

/-- `CanGrant`, on a refreshed window. -/
def admits (now : ℤ) : Bool :=
  if s.quiescing ∨ s.persistenceWait ∨ s.dispatchNeedsReady ∨ s.unresolved ∨ s.pendingClaimsFull
      ∨ maximumStartIntents ≤ s.startIntents.length
      ∨ 1000 ≤ s.requestRetirements.length + s.outstanding.length then false
  else if ¬ s.controller.cooling ∧ ¬ s.windowAnchored ∧ 0 < s.controller.policy.windowRequests
      ∧ s.controller.policy.windowRequests ≤ s.controller.windowStarts then false
  else s.controller.canStart now s.outstanding.length

/-- The item is one a permit can be granted for. -/
def validItem (now : ℤ) (item : ReadyItem) : Prop :=
  validPool s.poolID ∧ 1 ≤ s.generation ∧ s.sequence ≠ maxInt64
    ∧ validScope item.ref.scope
    ∧ (match item.kind with
      | .job => validPermitID item.ref.jobID ∧ 0 ≤ item.ref.index ∧ item.ref.index < 1000
          ∧ item.requestID = ""
      | .ordinary => validPermitID item.requestID ∧ item.ref.jobID = "" ∧ item.ref.index = 0)
    ∧ 1 ≤ item.budgetMS ∧ item.budgetMS ≤ milliseconds maximumGenerationBudget
    ∧ now < item.deadline

instance (now : ℤ) (item : ReadyItem) : Decidable (s.validItem now item) := by
  unfold validItem
  cases item.kind <;> infer_instance

/-- The intent is for the same item or request. -/
def sameOwner (item : ReadyItem) (r : Reservation) : Bool :=
  r.kind = item.kind && match item.kind with
    | .job => decide (r.ref = item.ref)
    | .ordinary => decide (r.requestID = item.requestID)

/-- **The name a permit's UUID is made from.** -/
def identity (pool : String) (generation sequence : ℤ) (item : ReadyItem) : String :=
  pool ++ "\x00" ++ toString generation ++ "\x00" ++ toString sequence ++ "\x00"
    ++ item.ref.scope ++ "\x00" ++ item.ref.jobID ++ "\x00" ++ toString item.ref.index
    ++ match item.kind with
      | .job => ""
      | .ordinary => "\x00ordinary\x00" ++ item.requestID

/-- The workflow that runs a permit. -/
def workflowFor (kind : Kind) (id : String) : String :=
  (match kind with
    | .job => "hllm-cpa-attempt-v2/"
    | .ordinary => "hllm-cpa-request-v2/") ++ id

/-- The reservation a grant makes. -/
def reservationFor (now : ℤ) (item : ReadyItem) : Reservation :=
  let id := H.uuid (identity s.poolID s.generation (s.sequence + 1) item)
  { permitID := id
    poolID := s.poolID
    generation := s.generation
    sequence := s.sequence + 1
    ref := item.ref
    requestID := match item.kind with | .job => "" | .ordinary => item.requestID
    kind := item.kind
    workflowID := workflowFor item.kind id
    grantedAt := now
    startBy := minTime (now + 5 * second) item.deadline
    deadline := item.deadline
    budgetMS := item.budgetMS
    windowID := s.windowID
    epoch := s.episode
    policyRevision := s.policyRevision
    probe := s.controller.cooling }

/-- The controller after a grant. A window is anchored by a confirmed
claim, so the pacer starts without it and the window counts the grant
separately. -/
def grantController (now : ℤ) : Controller :=
  let policy := s.controller.policy
  let c := { s.controller with policy := { policy with windowRequests := 0 } }.start now
  { c with
    policy := policy
    windowStarts := if 0 < policy.windowRequests then c.windowStarts + 1 else c.windowStarts }

/-- The state after granting `r`. -/
def granted (now : ℤ) (r : Reservation) : PoolState :=
  { s with
    sequence := r.sequence
    controller := s.grantController now
    probeID := if r.probe then r.permitID else s.probeID
    probeClaimAt := if r.probe then 0 else s.probeClaimAt
    outstanding := s.outstanding ++ [{ id := r.permitID }]
    startIntents := s.startIntents ++ [r] }

/-- **A permit is granted**, at most one at a time for an item. The window
is refreshed whether or not the grant succeeds. -/
def grant (now : ℤ) (item : ReadyItem) : Except Err Reservation × PoolState :=
  let s₁ := s.refreshWindow now
  if ¬ (s₁.admits now ∧ s₁.validItem now item) then (.error .unavailable, s₁)
  else if s₁.startIntents.any (sameOwner item) then (.error .conflict, s₁)
  else (.ok (s₁.reservationFor H now item), s₁.granted now (s₁.reservationFor H now item))

/-- An intent that needs no further start is dropped. -/
def dropIntent (id : String) : PoolState :=
  { s with startIntents := s.startIntents.eraseP fun r => r.permitID = id }

/-- **A recovery floor is padded once.** -/
def padRecoveryFloor (previous : ℤ) : PoolState :=
  let c := s.controller
  if c.cooling = false ∨ c.nextEligible = 0 then { s with recoveryPadding := none }
  else if s.recoveryPadding.any fun p => c.nextEligible = p.expiry then s
  else if c.nextEligible ≤ previous then s
  else if s.recoveryJitterVersion ≠ 1 ∨ c.policy.recoveryJitterMS ≤ 0
      ∨ 1000 < c.policy.recoveryJitterMS then { s with recoveryPadding := none }
  else
    let floor := c.nextEligible
    let padding := (H.digest s.poolID s.episode s.probeID s.policyRevision floor
      % (c.policy.recoveryJitterMS.toNat + 1) : ℕ) * millisecond
    { s with
      recoveryPadding := some { floor := floor, expiry := floor + padding }
      controller := { c with nextEligible := floor + padding } }

/-- The share of an attempt that never reached the provider. -/
def applyNeverDispatched (now : ℤ) (a : Attempt) (probe : Bool) : PoolState :=
  let c := s.controller
  let s₁ := { s with
    controller := { c with
      windowStarts := if a.windowID = s.windowID ∧ 0 < c.windowStarts
        then c.windowStarts - 1 else c.windowStarts
      probing := if probe then false else c.probing }
    probeID := if probe then "" else s.probeID }
  if a.kind = .ordinary then s₁
  else if s.coalesceDispatchFailures ∧ s.dispatchNeedsReady then s₁
  else
    let backoff := max s.dispatchBackoff (2 * second)
    { s₁ with
      dispatchNeedsReady := true
      dispatchBlockedUntil := now + backoff
      dispatchBackoff := min (30 * second) (backoff * 2) }

/-- The controller's share of a settled outcome; a throttle that begins
cooling begins an episode. The pool, not a worker's clock, says when the
request was dispatched. -/
def completion (now : ℤ) (a : Attempt) (out : Outcome) (probe : Bool) : PoolState :=
  let c := s.controller
  let reserved := if a.windowID = s.windowID then c.windowStart else c.windowStart - 1
  let dispatched := if probe ∧ s.probeClaimAt ≠ 0 then s.probeClaimAt else c.epoch
  let c₁ := c.completeOutcome now dispatched reserved probe out
  { s with
    controller := c₁
    episode := if ¬ c.cooling ∧ c₁.cooling then s.episode + 1 else s.episode }

/-- The outcome completes, its recovery floor is padded, and a probe that
is over is forgotten. -/
def applyCompletion (now : ℤ) (a : Attempt) (out : Outcome) (probe : Bool) : PoolState :=
  let s₁ := (s.completion now a out probe).padRecoveryFloor H s.controller.nextEligible
  if probe ∧ ¬ s₁.controller.probing then { s₁ with probeID := "" } else s₁

/-- **The first settlement of a permit adapts admission.** Only the
current probe may reopen cooling, and an old episode's throttle only
refunds its window. -/
def applyOutcome (now : ℤ) (a : Attempt) (out : Outcome) : PoolState :=
  let c := s.controller
  let probe := a.probe && a.permitID = s.probeID
  let restricted := out.kind = .policy ∨ out.admission = .restricted
  let throttle := out.kind = .rejected ∨ out.admission = .throttled ∨ 0 < out.retryAfterMS
  if out.kind = .neverDispatched then s.applyNeverDispatched now a probe
  else if out.kind = .completed ∧ ¬ probe ∧ (c.cooling ∨ a.epoch ≠ s.episode) then s
  else if throttle ∧ ¬ restricted ∧ a.epoch < s.episode ∧ ¬ c.cooling then
    if out.kind = .rejected ∧ a.windowID = s.windowID ∧ 0 < c.windowStarts then
      { s with controller := { c with windowStarts := c.windowStarts - 1 } }
    else s
  else if probe ∧ out.kind = .completed ∧ now < c.nextEligible then
    { s with controller := { c with probing := false }, probeID := "" }
  else s.applyCompletion H now a out probe

/-- The slot of a permit whose claim is confirmed. -/
def claimSlot (id : String) : PoolState :=
  { s with
    outstanding := if 0 < s.pendingClaimLimit
      then modifyFirst (fun p => p.id = id) (fun p => { p with claimed := true }) s.outstanding
      else s.outstanding }

/-- The first confirmed claim of the probe dates it. -/
def dateProbe (now : ℤ) (id : String) : PoolState :=
  { s with
    dispatchBackoff := 2 * second
    probeClaimAt := if id = s.probeID ∧ s.probeClaimAt = 0 then now else s.probeClaimAt }

/-- The first confirmed claim of a window anchors it. -/
def anchorWindow (now : ℤ) (window : ℤ) : PoolState :=
  if window = s.windowID ∧ s.windowAnchored = false then
    { s with
      windowAnchored := true
      controller := { s.controller with
        windowStart := now
        epoch := if s.controller.cooling then s.controller.epoch else now } }
  else s

/-- The part of `Observe` a confirmed claim plays; its start intent goes. -/
def observeClaim (now : ℤ) (a : Attempt) : PoolState :=
  (((s.claimSlot a.permitID).dropIntent a.permitID).dateProbe now a.permitID).anchorWindow now
    a.windowID

/-- The slot of a settled permit: released once the attempt has stopped,
and until then waiting for that. -/
def settleSlot (a : Attempt) : PoolState :=
  if a.stoppedAt ≠ none then
    { s with
      outstanding := s.outstanding.eraseP fun p => p.id = a.permitID
      requestRetirements := if a.kind = .ordinary then s.requestRetirements ++ [a.permitID]
        else s.requestRetirements }
  else
    { s with
      outstanding := modifyFirst (fun p => p.id = a.permitID)
        (fun p => { p with applied := true, revision := a.settlementRevision, awaitingStop := true })
        s.outstanding }

/-- The part of `Observe` a settlement newer than the permit's revision
plays: the outcome is applied once. -/
def observeSettlement (now : ℤ) (a : Attempt) (out : Outcome) (slot : PoolPermit) : PoolState :=
  let s₁ := s.dropIntent a.permitID
  (if slot.applied then s₁ else s₁.applyOutcome H now a out).settleSlot a

/-- **A ledger row is observed**, however old. `Observe` also reports
whether the row was news, which only hurries the next queue read. -/
def observe (now : ℤ) (a : Attempt) : PoolState :=
  match s.outstanding.find? fun p => p.id = a.permitID with
  | none => s
  | some slot =>
    if a.poolID ≠ s.poolID ∨ a.generation ≠ s.generation then s
    else
      let s₁ := if a.claimedAt ≠ none then s.observeClaim now a else s
      match a.observation with
      | none => s₁
      | some o =>
        if a.state ≠ .settled ∨ a.settlementRevision < 1 ∨ a.settlementRevision ≤ slot.revision
        then s₁
        else s₁.observeSettlement H now a o.outcome slot

/-- The starts that an activity confirmed need no further start. -/
def acknowledgeStarts (started : List String) : PoolState :=
  started.foldl (fun s id => s.dropIntent id) s

/-- Cooling until a probe, in an episode of its own. -/
def recool (now : ℤ) : PoolState :=
  { s with
    controller := { s.controller with
      paused := false
      cooling := true
      nextEligible := max s.controller.nextEligible now }
    episode := s.episode + 1
    probeID := "" }

/-- The operator's resume: admission is cooling until its probe, unless a
probe is already out. -/
def resume (now : ℤ) : PoolState :=
  if s.controller.probing then { s with controller := { s.controller with paused := false } }
  else (s.recool now).padRecoveryFloor H s.controller.nextEligible

/-- A policy signal; an invalid policy is ignored. -/
def configure (p : Policy) : PoolState :=
  match s.controller.configure p with
  | some c => { s with controller := c, policyRevision := s.policyRevision + 1 }
  | none => s

end PoolState

end HardenLlm.Batch
