import HardenLlm.Batch.Model.Workflow
/-!
# A pool workflow that watches its ledger

The pool workflow and the database it shares with everyone else. Rows are
read at any moment and observed in any order, late, repeatedly or never.
Beside it is remembered which rows were delivered, which permits had their
outcome applied and which had their slot removed.
-/

namespace HardenLlm.Batch

/-- The permits that have a slot. -/
def PoolState.slots (s : PoolState) : List String := s.outstanding.map (·.id)

/-- `CanGrant`. -/
def PoolState.canGrant (s : PoolState) (now : ℤ) : Bool := (s.refreshWindow now).admits now

/-- The rows an act hands to `Observe`. -/
def WorkflowAct.delivers : WorkflowAct → List Attempt
  | .act (.observe a) => [a]
  | _ => []

/-- The permits whose outcome an act applies. -/
def WorkflowAct.applies (s : PoolState) : WorkflowAct → List String
  | .act (.observe a) => if (s.applies a).isSome then [a.permitID] else []
  | _ => []

/-- The workflow, the database, every row read so far, and what became of
them. -/
structure Watch where
  workflow : PoolWorkflow
  db : DB
  reads : List Attempt
  delivered : List Attempt
  applied : List String
  removed : List String

namespace Watch

variable (H : Hashes) (s : Watch)

/-- The pool beside its ledger. -/
def joint : Joint := ⟨s.workflow.toPoolRun, s.db, s.reads⟩

/-- The workflow's next act. A slot is removed if it was there before the
act and is not there after it. -/
def follow (t : ℤ) (act : WorkflowAct) : Watch :=
  let w := s.workflow.follow H t act
  { s with
    workflow := w
    delivered := s.delivered ++ act.delivers
    applied := s.applied ++ act.applies s.workflow.pool
    removed := s.removed ++ s.workflow.pool.slots.filter fun id => id ∉ w.pool.slots }

/-- The pool observes rows of its own that were read. -/
def Allows : WorkflowAct → Prop
  | .act act => s.joint.Allows act
  | _ => True

/-- A delivered row of the permit was settled. -/
def Settled (id : String) : Prop := ∃ a ∈ s.delivered, a.permitID = id ∧ a.state = .settled

/-- A delivered row of the permit was settled and stopped. -/
def Stopped (id : String) : Prop :=
  ∃ a ∈ s.delivered, a.permitID = id ∧ a.state = .settled ∧ a.stoppedAt ≠ none

end Watch

/-- **One step of the workflow or of its ledger.** -/
inductive WatchStep (H : Hashes) (size : AttemptObservation → ℕ) (s : Watch) : Watch → Prop
  | follow (t : ℤ) (act : WorkflowAct) (later : s.workflow.now ≤ t)
      (follows : s.workflow.Follows act) (allowed : s.Allows act) :
      WatchStep H size s (s.follow H t act)
  | read {id : String} {a : Attempt} (row : s.db.attempts.get? id = some a) :
      WatchStep H size s { s with reads := a :: s.reads }
  | exec (op : Op) (c : Clock) {db' : DB} (offered : s.joint.Offers op)
      (exec : op.exec size c s.db = .ok db') : WatchStep H size s { s with db := db' }

/-- **A pool workflow and its ledger**, both new. -/
def watches (H : Hashes) (size : AttemptObservation → ℕ) : System Watch where
  init s := (joint H size).init s.joint ∧ s.workflow.retiring = none ∧ s.delivered = []
    ∧ s.applied = [] ∧ s.removed = []
  step := WatchStep H size

end HardenLlm.Batch
