import HardenLlm.Batch.Model.Store
/-!
# Settlements around a job's deadline

A settlement and the expiry of a reservation lock the permit's row and its
item, read the clock, write the item, and touch the job's row last; only
then do they commit. `Expire` locks the job's row and fails the items whose
committed version holds no permit, so it waits for a settlement that has
touched the job and passes by one that has not. Here a settlement takes
these steps one at a time, on one clock, and every other transaction runs
at once.
-/

namespace HardenLlm.Batch

/-- The permit whose row a transaction locks or inserts. -/
def Op.permit : Op → Option String
  | .reserveAttempt r => some r.permitID
  | .claimAttempt id _ | .markDispatch id _ | .stageAttempt id _ _ | .settleAttempt id _ _
  | .expireReservation id | .markLocalStop id _ _ => some id
  | _ => none

/-- The transactions that release an item: `SettleAttempt` and
`ExpireReservation`. -/
def Op.releases : Op → Bool
  | .settleAttempt _ _ _ | .expireReservation _ => true
  | _ => false

/-- The job's deadline transaction. -/
def Op.expires : Op → Bool
  | .expire _ _ => true
  | _ => false

/-- **A release that returns the item** to `SelectReady`: never sent, or
refused within the budget, at a clock reading before the deadline. -/
def Op.requeues (c : Clock) (i : ItemRow) (deadline : ℤ) : Op → Prop
  | .settleAttempt _ _ o =>
    (o.outcome.kind = .neverDispatched ∨ o.outcome.kind = .rejected ∧ i.attempts < 16)
      ∧ c.item < deadline
  | .expireReservation _ => c.item < deadline
  | _ => False

/-- **A settlement in flight**: it holds the permit's row and the item, and
has read the clock. -/
structure Settling where
  op : Op
  clock : Clock
  /-- The permit's row as it was read. -/
  row : Attempt
  /-- Whether it has written the job's row, and so locks it. -/
  touched : Bool := false

/-- The time, the committed database, the settlements in flight and the
jobs whose `Expire` has committed. -/
structure Draining where
  now : ℤ
  db : DB
  settling : List Settling
  expired : List (String × String)

/-- **One step around the deadlines.** `timely` restricts when a job's
`Expire` may commit. -/
inductive DrainStep (size : AttemptObservation → ℕ) (timely : Draining → String × String → Prop)
    (s : Draining) : Draining → Prop
  | wait {t : ℤ} (later : s.now ≤ t) : DrainStep size timely s { s with now := t }
  | begin (op : Op) (c : Clock) {id : String} {a : Attempt} {db' : DB}
      (releases : op.releases = true) (permit : op.permit = some id)
      (row : s.db.attempts.get? id = some a) (free : ∀ tx ∈ s.settling, tx.row.permitID ≠ id)
      (reads : c.item = s.now) (exec : op.exec size c s.db = .ok db') :
      DrainStep size timely s { s with settling := ⟨op, c, a, false⟩ :: s.settling }
  | touch {tx : Settling} {before after : List Settling}
      (holds : s.settling = before ++ tx :: after) (job : tx.row.kind = .job)
      (waits : ∀ t ∈ s.settling, t.row.kind = .job → t.row.ref.job = tx.row.ref.job →
        t.touched = false) :
      DrainStep size timely s
        { s with settling := before ++ { tx with touched := true } :: after }
  | commit {tx : Settling} {before after : List Settling} {db' : DB}
      (holds : s.settling = before ++ tx :: after)
      (done : tx.row.kind = .job → tx.touched = true)
      (exec : tx.op.exec size tx.clock s.db = .ok db') :
      DrainStep size timely s { s with db := db', settling := before ++ after }
  | abort {tx : Settling} {before after : List Settling}
      (holds : s.settling = before ++ tx :: after) :
      DrainStep size timely s { s with settling := before ++ after }
  | expire {scope id : String} {j : JobRow} {db' : DB}
      (row : s.db.jobs.get? (scope, id) = some j) (due : j.deadline ≤ s.now)
      (once : (scope, id) ∉ s.expired)
      (waits : ∀ tx ∈ s.settling, tx.row.kind = .job → tx.row.ref.job = (scope, id) →
        tx.touched = false)
      (inTime : timely s (scope, id)) (exec : expire s.db scope id = .ok db') :
      DrainStep size timely s { s with db := db', expired := (scope, id) :: s.expired }
  | other (op : Op) (c : Clock) {db' : DB} (releases : op.releases = false)
      (expires : op.expires = false)
      (waits : ∀ tx ∈ s.settling, op.permit ≠ some tx.row.permitID)
      (exec : op.exec size c s.db = .ok db') : DrainStep size timely s { s with db := db' }

/-- **Jobs around their deadlines**, from an empty database. -/
def draining (size : AttemptObservation → ℕ) (timely : Draining → String × String → Prop) :
    System Draining where
  init s := s.db = .empty ∧ s.settling = [] ∧ s.expired = []
  step := DrainStep size timely

/-- `Expire` whenever the job is due. -/
def Draining.AnyTime : Draining → String × String → Prop := fun _ _ => True

/-- No settlement in flight is about to return an item of this job. -/
def Draining.Timely (s : Draining) (job : String × String) : Prop :=
  ∀ tx ∈ s.settling, tx.row.kind = .job → tx.row.ref.job = job →
    ∀ i ∈ s.db.items.get? tx.row.ref, ∀ j ∈ s.db.jobs.get? job,
      ¬ tx.op.requeues tx.clock i j.deadline

end HardenLlm.Batch
