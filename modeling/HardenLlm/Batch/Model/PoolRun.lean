import HardenLlm.Batch.Model.PoolState
import HardenLlm.Batch.Model.Store
/-!
# A pool's run

The pool workflow as a run of its state: grants, observed rows,
acknowledged starts and signals, at times that never go back. What the run
has granted, and under what concurrency, is remembered beside it.
-/

namespace HardenLlm.Batch

/-- What the pool workflow sets by itself, outside the state's functions. -/
structure Housekeeping where
  dispatchNeedsReady : Bool
  dispatchBlockedUntil : ℤ
  dispatchBackoff : ℤ
  quiescing : Bool
  persistenceWait : Bool
  requestRetirements : List String
  coalesceDispatchFailures : Bool
  pendingClaimLimit : ℤ
  recoveryJitterVersion : ℤ

def PoolState.housekeep (s : PoolState) (k : Housekeeping) : PoolState :=
  { s with
    dispatchNeedsReady := k.dispatchNeedsReady
    dispatchBlockedUntil := k.dispatchBlockedUntil
    dispatchBackoff := k.dispatchBackoff
    quiescing := k.quiescing
    persistenceWait := k.persistenceWait
    requestRetirements := k.requestRetirements
    coalesceDispatchFailures := k.coalesceDispatchFailures
    pendingClaimLimit := k.pendingClaimLimit
    recoveryJitterVersion := k.recoveryJitterVersion }

/-- What a pool can do next. -/
inductive PoolAct
  | grant (item : ReadyItem)
  | refresh
  | observe (a : Attempt)
  | acknowledge (started : List String)
  | resume
  | configure (p : Policy)
  | housekeep (k : Housekeeping)

/-- A pool, the time it last acted at, the grants it has made, oldest
first, and the largest concurrency one of them was made under. -/
structure PoolRun where
  pool : PoolState
  now : ℤ
  granted : List Reservation := []
  peak : ℤ := 0

namespace PoolRun

variable (H : Hashes) (r : PoolRun)

def act (t : ℤ) : PoolAct → PoolRun
  | .grant item =>
    match r.pool.grant H t item with
    | (.ok p, s) =>
      { pool := s, now := t, granted := r.granted ++ [p]
        peak := max r.peak r.pool.controller.policy.concurrency }
    | (.error _, s) => { r with pool := s, now := t }
  | .refresh => { r with pool := r.pool.refreshWindow t, now := t }
  | .observe a => { r with pool := r.pool.observe H t a, now := t }
  | .acknowledge started => { r with pool := r.pool.acknowledgeStarts started, now := t }
  | .resume => { r with pool := r.pool.resume H t, now := t }
  | .configure p => { r with pool := r.pool.configure p, now := t }
  | .housekeep k => { r with pool := r.pool.housekeep k, now := t }

/-- The rows the ledger can show: a granted reservation as it is stored,
with anything at all written to its other columns since. -/
def Shows (a : Attempt) : Prop := ∃ p ∈ r.granted, a.toReservation = p.stored

/-- Only rows of granted permits are observed; everything else may be done
at any time. -/
def Permits : PoolAct → Prop
  | .observe a => r.Shows a
  | _ => True

end PoolRun

/-- **A pool's runs**, from `NewPoolState` under a valid policy. -/
def pools (H : Hashes) : System PoolRun where
  init r := ∃ pool generation policy, policy.Valid ∧ r.pool = .new pool generation policy
    ∧ r.granted = [] ∧ r.peak = 0
  step r r' := ∃ t act, r.now ≤ t ∧ r.Permits act ∧ r' = r.act H t act

/-! ## A sample pool -/

namespace Sample

def policy : Policy where
  concurrency := 4
  burst := 2
  startRate := 1
  maximumRate := 10
  refillEstimate := 60 * second
  windowRequests := 0
  windowDuration := 0

def readyItem : ReadyItem :=
  { ref := ref, budgetMS := 300000, deadline := 1100 * second, readyAt := 1000 * second }

/-- The sample pool before its first grant. -/
def fresh : PoolRun := { pool := .new "pool" 2 policy, now := 1000 * second }

/-- The name of the sample pool's first permit hashes to this UUID. -/
def hashes : Hashes where
  uuid name :=
    if name = PoolState.identity "pool" 2 1 readyItem then "7421a8bc-1712-55dc-8a80-343b58ce3ad6"
    else permit
  uuid_valid name := by split <;> decide
  digest _ _ _ _ _ := 0

end Sample

end HardenLlm.Batch
