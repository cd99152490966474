import HardenLlm.Batch.Model.PoolRun
/-!
# A pool beside its ledger

The pool workflow and the database it shares with everyone else. The pool
learns of its permits from rows that were read at some earlier moment, in
any order and as often as it likes. Only the pool hands its reservations to
`ReserveAttempt`; every other transaction may commit at any time.
-/

namespace HardenLlm.Batch

/-- The pool, the database, and every row read so far. -/
structure Joint where
  run : PoolRun
  db : DB
  reads : List Attempt

namespace Joint

/-- What the pool may do next: it observes rows that were read, and takes a
start for confirmed once `ReserveAttempt` returned the permit's row. -/
def Allows (s : Joint) : PoolAct → Prop
  | .observe a => a ∈ s.reads ∧ a.poolID = s.run.pool.poolID
  | .acknowledge started => ∀ id ∈ started, (s.db.attempts.get? id).isSome = true
  | _ => True

/-- A reservation of this pool is one it granted, and a reservation's
workflow is named after its permit. -/
def Offers (s : Joint) : Op → Prop
  | .reserveAttempt r => r.workflowID = PoolState.workflowFor r.kind r.permitID
      ∧ (r.poolID = s.run.pool.poolID → r ∈ s.run.granted)
  | _ => True

end Joint

/-- **One step of a pool or of its ledger.** -/
inductive JointStep (H : Hashes) (size : AttemptObservation → ℕ) (s : Joint) : Joint → Prop
  | act (t : ℤ) (act : PoolAct) (later : s.run.now ≤ t) (allowed : s.Allows act) :
      JointStep H size s { s with run := s.run.act H t act }
  | read {id : String} {a : Attempt} (row : s.db.attempts.get? id = some a) :
      JointStep H size s { s with reads := a :: s.reads }
  | exec (op : Op) (c : Clock) {db' : DB} (offered : s.Offers op)
      (exec : op.exec size c s.db = .ok db') : JointStep H size s { s with db := db' }

/-- **A pool and its ledger**, both new. -/
def joint (H : Hashes) (size : AttemptObservation → ℕ) : System Joint where
  init s := (pools H).init s.run ∧ s.db = .empty ∧ s.reads = []
  step := JointStep H size

end HardenLlm.Batch
