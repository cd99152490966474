import Mathlib.Data.List.Sort
import HardenLlm.Batch.Model.Workflow
/-!
# Pruning ordinary requests

The end of `request_queue.go`: `AcknowledgeRequests` marks the waiters
whose permits a pool has let go of, and `PruneRequests` deletes waiters,
with the rows of their permits, a day after their deadline. Both run
beside the pool workflow whose batches of retired requests are handed to
the first, and beside every other transaction.
-/

namespace HardenLlm.Batch

/-- What a pool asks of its ledger. -/
structure PoolRead where
  poolID : String
  generation : ℤ
  ids : List String

/-- The row of a permit that a pool of this generation may let go of. -/
def Attempt.retirable (a : Attempt) (read : PoolRead) : Bool :=
  a.poolID = read.poolID && a.generation = read.generation && read.ids.contains a.permitID
    && a.kind = .ordinary && a.state = .settled && a.stoppedAt.isSome

/-- **The pool has let go of these permits.** Their waiters are marked,
the first time. -/
def acknowledgeRequests (db : DB) (read : PoolRead) (c : Clock) : Except Err DB := do
  require (validPool read.poolID ∧ 2 ≤ read.generation ∧ read.ids.length ≤ 128) .conflict
  require (∀ id ∈ read.ids, validPermitID id) .conflict
  guardPool db read.poolID read.generation
  return { db with
    waiters := db.waiters.update
      (fun w => w.permitID ≠ "" && (db.attempts.get? w.permitID).any fun a => a.retirable read)
      ⟨fun w => { w with poolObservedAt := w.poolObservedAt.or (some (micro c.tx)) }, fun _ => rfl⟩ }

/-- How long metadata is kept past its deadline. -/
def retention : ℤ := 24 * 3600 * second

/-- A waiter of the pool whose time is over, and whose permit, if it holds
one, the pool has let go of. -/
def RequestWaiter.expired (w : RequestWaiter) (pool : String) (now : ℤ) : Bool :=
  w.poolID = pool && w.deadline + retention < now
    && (w.permitID = "" || w.poolObservedAt.isSome)

/-- The order in which waiters are pruned. -/
def RequestWaiter.before (w v : RequestWaiter) : Bool :=
  w.deadline < v.deadline || (w.deadline = v.deadline && w.requestID ≤ v.requestID)

/-- A row that may be deleted. -/
def Attempt.prunable (a : Attempt) (pool : String) : Bool :=
  a.poolID = pool && a.kind = .ordinary && a.state = .settled && a.stoppedAt.isSome

/-- **One waiter is pruned**, with its permit's row; if that row cannot be
deleted, neither is the waiter. -/
def pruneRequest (pool : String) (r : ℕ × DB) (w : RequestWaiter) : ℕ × DB :=
  if w.permitID = "" then
    (r.1 + 1, { r.2 with waiters := r.2.waiters.erase w.requestID })
  else match r.2.attempts.get? w.permitID with
    | none => r
    | some a =>
      if a.prunable pool then
        (r.1 + 1, { r.2 with
          waiters := r.2.waiters.erase w.requestID
          attempts := r.2.attempts.erase w.permitID })
      else r

/-- **Metadata past its retention is deleted**, as far as no other
transaction has it locked. -/
def pruneRequests (db : DB) (pool : String) (limit : ℤ) (locked : RequestWaiter → Bool) (c : Clock) :
    Except Err (ℕ × DB) := do
  require (validPool pool ∧ 1 ≤ limit ∧ limit ≤ 128) .conflict
  let selected := ((db.waiters.rows.filter fun w => w.expired pool c.tx && !locked w).insertionSort
    fun w v => w.before v = true).take limit.toNat
  return selected.foldl (pruneRequest pool) (0, db)

/-! ## Beside the pool workflow -/

/-- The batches an act hands to `RetireRequests`. -/
def WorkflowAct.sends (s : PoolState) : WorkflowAct → List (List String)
  | .retire => [s.requestRetirements.take 128]
  | _ => []

/-- The workflow, the database, the rows read so far and the batches
handed over so far. -/
structure Archive where
  workflow : PoolWorkflow
  db : DB
  reads : List Attempt
  batches : List (List String)

namespace Archive

variable (s : Archive)

/-- The pool and generation are the workflow's. -/
def Owns (pool : String) (generation : ℤ) : Prop :=
  pool = s.workflow.pool.poolID ∧ generation = s.workflow.pool.generation

/-- The pool observes rows of its own that were read. -/
def Allows : WorkflowAct → Prop
  | .act (.observe a) => a ∈ s.reads ∧ a.poolID = s.workflow.pool.poolID
  | _ => True

/-- A reservation in the pool's name is one it granted. -/
def Offers : Op → Prop
  | .reserveAttempt r => s.Owns r.poolID r.generation → r ∈ s.workflow.granted
  | _ => True

end Archive

/-- **One step of the workflow, its ledger or the pruning.** A batch may
reach the ledger late, repeatedly, or without the workflow learning of
it. -/
inductive ArchiveStep (H : Hashes) (size : AttemptObservation → ℕ) (s : Archive) : Archive → Prop
  | follow (t : ℤ) (act : WorkflowAct) (follows : s.workflow.Follows act)
      (allowed : s.Allows act) : ArchiveStep H size s
        { s with
          workflow := s.workflow.follow H t act
          batches := s.batches ++ act.sends s.workflow.pool }
  | read {id : String} {a : Attempt} (row : s.db.attempts.get? id = some a) :
      ArchiveStep H size s { s with reads := a :: s.reads }
  | exec (op : Op) (c : Clock) {db' : DB} (offered : s.Offers op)
      (exec : op.exec size c s.db = .ok db') : ArchiveStep H size s { s with db := db' }
  | acknowledge (read : PoolRead) (c : Clock) {db' : DB}
      (sent : s.Owns read.poolID read.generation → read.ids ∈ s.batches)
      (exec : acknowledgeRequests s.db read c = .ok db') : ArchiveStep H size s { s with db := db' }
  | prune (pool : String) (limit : ℤ) (locked : RequestWaiter → Bool) (c : Clock) {n : ℕ} {db' : DB}
      (exec : pruneRequests s.db pool limit locked c = .ok (n, db')) :
      ArchiveStep H size s { s with db := db' }

/-- **A pool workflow and its ledger**, both new, with pruning. -/
def archives (H : Hashes) (size : AttemptObservation → ℕ) : System Archive where
  init s := (pools H).init s.workflow.toPoolRun ∧ s.workflow.retiring = none ∧ s.db = .empty
    ∧ s.reads = [] ∧ s.batches = []
  step := ArchiveStep H size

end HardenLlm.Batch
