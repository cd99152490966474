import HardenLlm.Batch.Model.Joint
/-!
# The pool workflow

`pool_workflow.go` around the pool's state: acts one after the other, the
batches of retired requests that are handed to the ledger, and the pools
that begin where the legacy dispatcher of `workflows.go` stops.
-/

namespace HardenLlm.Batch

/-! ## Acts one after the other -/

namespace PoolRun

variable (H : Hashes)

/-- The acts of a list, each at its time. -/
def acts (r : PoolRun) (l : List (ℤ × PoolAct)) : PoolRun :=
  l.foldl (fun r e => r.act H e.1 e.2) r

/-- The acts of a list can follow one another from `now` on. -/
def Sequel : ℤ → PoolRun → List (ℤ × PoolAct) → Prop
  | _, _, [] => True
  | now, r, e :: l => now ≤ e.1 ∧ r.Permits e.2 ∧ Sequel e.1 (r.act H e.1 e.2) l

/-- The property holds before, between and after the acts. -/
def Throughout (P : PoolRun → Prop) : PoolRun → List (ℤ × PoolAct) → Prop
  | r, [] => P r
  | r, e :: l => P r ∧ Throughout P (r.act H e.1 e.2) l

end PoolRun

/-- **The outcome that observing a row applies**, if it applies one: the
first settlement seen of a permit that is out. -/
def PoolState.applies (s : PoolState) (a : Attempt) : Option Outcome :=
  match s.outstanding.find? fun p => p.id = a.permitID with
  | none => none
  | some slot =>
    if a.poolID ≠ s.poolID ∨ a.generation ≠ s.generation ∨ a.state ≠ .settled
        ∨ a.settlementRevision < 1 ∨ a.settlementRevision ≤ slot.revision ∨ slot.applied = true
    then none
    else a.observation.map fun o => o.outcome

/-! ## Retirement

A permit that left the pool waits in `RequestRetirements` until an activity
has told the ledger. The activity takes a batch from the front; while it
runs, more permits may be added behind. -/

/-- The pool's run and the batch of the retirement that is under way. -/
structure PoolWorkflow extends PoolRun where
  retiring : Option (List String) := none

/-- What the workflow does next. -/
inductive WorkflowAct
  | act (act : PoolAct)
  /-- `RetireRequests` is scheduled. -/
  | retire
  /-- It succeeded, and the workflow has learned of it. -/
  | retired
  /-- It failed, or its success was lost. -/
  | unretired

/-- The workflow's own settings leave the retirements and the versions of
its behaviour alone. -/
structure Housekeeping.Tidy (k : Housekeeping) (s : PoolState) : Prop where
  requestRetirements : k.requestRetirements = s.requestRetirements
  coalesceDispatchFailures : k.coalesceDispatchFailures = s.coalesceDispatchFailures
  pendingClaimLimit : k.pendingClaimLimit = s.pendingClaimLimit
  recoveryJitterVersion : k.recoveryJitterVersion = s.recoveryJitterVersion

namespace PoolWorkflow

variable (H : Hashes) (w : PoolWorkflow)

def follow (t : ℤ) : WorkflowAct → PoolWorkflow
  | .act act => { w with toPoolRun := w.toPoolRun.act H t act }
  | .retire => { w with now := t, retiring := some (w.pool.requestRetirements.take 128) }
  | .retired =>
    { w with
      now := t
      pool := { w.pool with
        requestRetirements := w.pool.requestRetirements.drop (w.retiring.getD []).length }
      retiring := none }
  | .unretired => { w with now := t, retiring := none }

/-- One retirement runs at a time. Any row may be observed. -/
def Follows : WorkflowAct → Prop
  | .act (.housekeep k) => k.Tidy w.pool
  | .act _ => True
  | .retire => w.retiring = none ∧ w.pool.requestRetirements ≠ []
  | .retired | .unretired => w.retiring ≠ none

end PoolWorkflow

/-- **The pool workflow's runs**, from `NewPoolState` under a valid
policy, at any times. -/
def workflows (H : Hashes) : System PoolWorkflow where
  init w := (pools H).init w.toPoolRun ∧ w.retiring = none
  step w w' := ∃ t act, w.Follows act ∧ w' = w.follow H t act

/-! ## Snapshots -/

namespace PoolState

variable (s : PoolState)

/-- A retained padding is the one the cooling waits for. -/
def validRecoveryPadding : Bool :=
  if s.recoveryJitterVersion < 0 ∨ 1 < s.recoveryJitterVersion
      ∨ s.controller.policy.recoveryJitterMS < 0 ∨ 1000 < s.controller.policy.recoveryJitterMS
  then false
  else match s.recoveryPadding with
    | none => true
    | some p => s.recoveryJitterVersion = 1 ∧ p.floor ≠ 0 ∧ p.floor ≤ p.expiry
        ∧ p.expiry - p.floor ≤ second ∧ s.controller.cooling = true
        ∧ s.controller.nextEligible = p.expiry

end PoolState

/-! ## The legacy dispatcher -/

/-- The dispatcher's controller, and the time it last acted at. -/
structure Dispatcher where
  controller : Controller
  now : ℤ

/-- What the dispatcher does to its controller. -/
inductive DispatcherStep (d : Dispatcher) : Dispatcher → Prop
  | start {t : ℤ} (later : d.now ≤ t) {active : ℤ} (may : d.controller.canStart t active = true) :
      DispatcherStep d ⟨d.controller.start t, t⟩
  | complete {t : ℤ} (later : d.now ≤ t) (dispatched reserved : ℤ) (probe : Bool) (out : Outcome) :
      DispatcherStep d ⟨d.controller.completeOutcome t dispatched reserved probe out, t⟩
  | resume {t : ℤ} (later : d.now ≤ t) :
      DispatcherStep d ⟨{ d.controller with
        paused := false, cooling := true, probing := false, nextEligible := t }, t⟩
  | configure {p : Policy} {c : Controller} (valid : d.controller.configure p = some c) :
      DispatcherStep d ⟨c, d.now⟩
  /-- A run begins with the versions its history recorded. -/
  | versions (refill paced accumulate honor : Bool) :
      DispatcherStep d ⟨{ d.controller with
        refillWindowBurst := refill, pacedRecovery := paced
        accumulatePace := accumulate, honorFailureHints := honor }, d.now⟩

/-- **The legacy dispatcher's runs.** No clock shows the zero time. -/
def dispatchers : System Dispatcher where
  init d := (∃ policy : Policy, policy.Valid ∧ d.controller = .new policy) ∧ 0 < d.now
  step := DispatcherStep

/-- **The pool a dispatcher hands over to.** A window that is running
stays open and anchored. -/
def handOver (fence : PoolFence) (c : Controller) : PoolState :=
  { PoolState.new fence.poolID fence.generation c.policy with
    controller := c
    sequence := fence.sequence
    windowAnchored := c.windowStart ≠ 0 }

namespace Sample

/-- The sample pool's first permit. -/
def firstPermit : Reservation where
  permitID := "7421a8bc-1712-55dc-8a80-343b58ce3ad6"
  poolID := "pool"
  generation := 2
  sequence := 1
  ref := ⟨scope, job, 0⟩
  requestID := ""
  kind := .job
  workflowID := "hllm-cpa-attempt-v2/7421a8bc-1712-55dc-8a80-343b58ce3ad6"
  grantedAt := 1000 * second
  startBy := 1005 * second
  deadline := 1100 * second
  budgetMS := 300000
  windowID := 1
  epoch := 1
  policyRevision := 1
  probe := false

end Sample

end HardenLlm.Batch
