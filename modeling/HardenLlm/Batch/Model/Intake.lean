import HardenLlm.Batch.Model.Joint
/-!
# From the queue into the ledger

An item's way to a permit: the pool asks `SelectReady` for a page, naming
what it has granted and not yet seen stored; it grants the page's items one
by one; and `ReserveAttempt` stores each grant, retried until it does.
Between these steps every other transaction may commit. A page that fails
to arrive, or is lost when the workflow continues as new, is asked for
again.
-/

namespace HardenLlm.Batch

/-- What `SelectReady` is asked for. The scope to go on from and the limit
are not here: they say which of the candidates are chosen. -/
structure QueueSelection where
  poolID : String
  generation : ℤ
  exclude : List Ref
  excludeRequests : List String
  deriving DecidableEq, Repr

namespace PoolState

variable (s : PoolState)

/-- `ReadyExclusions`. -/
def readyExclusions : List Ref :=
  (s.startIntents.filter fun r => r.kind = .job).map fun r => r.ref

/-- `ReadyRequestExclusions`. -/
def readyRequestExclusions : List String :=
  (s.startIntents.filter fun r => r.kind = .ordinary).map fun r => r.requestID

/-- The pool's next question. -/
def selection : QueueSelection where
  poolID := s.poolID
  generation := s.generation
  exclude := s.readyExclusions
  excludeRequests := s.readyRequestExclusions

end PoolState

/-- An item as a page names it. -/
def ItemRow.ready (i : ItemRow) (j : JobRow) : ReadyItem where
  ref := i.ref
  budgetMS := milliseconds (generationBudget i.request)
  deadline := j.deadline
  readyAt := i.queuedAt

/-- A waiting request as a page names it. -/
def RequestWaiter.ready (w : RequestWaiter) : ReadyItem where
  kind := .ordinary
  requestID := w.requestID
  ref := ⟨w.scope, "", 0⟩
  budgetMS := w.budgetMS
  deadline := w.deadline
  readyAt := w.createdAt

namespace QueueSelection

variable (q : QueueSelection)

/-- The questions `SelectReady` accepts. -/
def wellFormed : Prop :=
  validPool q.poolID ∧ q.exclude.length + q.excludeRequests.length ≤ 128
    ∧ (∀ id ∈ q.excludeRequests, validPermitID id)
    ∧ ∀ ref ∈ q.exclude, validScope ref.scope ∧ validPermitID ref.jobID ∧ 0 ≤ ref.index
      ∧ ref.index < maximumItems

instance : Decidable q.wellFormed := inferInstanceAs (Decidable (_ ∧ _))

/-- The item waits, of a job of the pool that still has time. An item
without a budget fails the page it is on. -/
def admitsItem (now : ℤ) (i : ItemRow) (j : JobRow) : Prop :=
  i.state.open = true ∧ i.currentPermit = none ∧ i.ref ∉ q.exclude ∧ j.poolID = q.poolID
    ∧ now < j.deadline ∧ 0 < generationBudget i.request

instance (now : ℤ) (i : ItemRow) (j : JobRow) : Decidable (q.admitsItem now i j) :=
  inferInstanceAs (Decidable (_ ∧ _))

/-- The request waits, for a live caller. -/
def admitsRequest (now : ℤ) (w : RequestWaiter) : Prop :=
  w.poolID = q.poolID ∧ w.generation = q.generation ∧ now < w.deadline ∧ now < w.liveUntil
    ∧ w.closedAt = none ∧ w.permitID = "" ∧ w.requestID ∉ q.excludeRequests
    ∧ 1 ≤ w.budgetMS ∧ w.budgetMS ≤ 900000

instance (now : ℤ) (w : RequestWaiter) : Decidable (q.admitsRequest now w) :=
  inferInstanceAs (Decidable (_ ∧ _))

/-- **What a page is chosen from**, `readyPageSQL`'s candidates. -/
def candidates (db : DB) (now : ℤ) : List ReadyItem :=
  (db.items.rows.filterMap fun i => (db.jobs.get? i.ref.job).bind fun j =>
      if q.admitsItem now i j then some (i.ready j) else none)
    ++ (db.waiters.rows.filter fun w => q.admitsRequest now w).map RequestWaiter.ready

/-- **A page of `SelectReady`**: candidates of an active generation, each
at most once, whichever the rotation among scopes and jobs prefers. -/
def Selects (db : DB) (now : ℤ) (page : List ReadyItem) : Prop :=
  q.wellFormed ∧ guardPool db q.poolID q.generation = .ok () ∧ page.Nodup ∧ page.length ≤ 64
    ∧ ∀ x ∈ page, x ∈ q.candidates db now

end QueueSelection

/-- A pool and its ledger, the question it is waiting on and the items it
was offered. -/
structure Intake extends Joint where
  asked : Option QueueSelection
  ready : List ReadyItem

/-- **One step on the way from the queue to the ledger.** `clear` says when
a transaction may commit. -/
inductive IntakeStep (H : Hashes) (size : AttemptObservation → ℕ) (clear : Intake → Op → Prop)
    (s : Intake) : Intake → Prop
  /-- The pool does anything but grant. -/
  | act (t : ℤ) (act : PoolAct) (later : s.run.now ≤ t) (allowed : s.Allows act)
      (other : ∀ item, act ≠ .grant item) :
      IntakeStep H size clear s { s with run := s.run.act H t act }
  | read {id : String} {a : Attempt} (row : s.db.attempts.get? id = some a) :
      IntakeStep H size clear s { s with reads := a :: s.reads }
  | exec (op : Op) (c : Clock) {db' : DB} (offered : s.Offers op) (inTime : clear s op)
      (exec : op.exec size c s.db = .ok db') : IntakeStep H size clear s { s with db := db' }
  /-- It asks only when it has nothing left to grant. -/
  | ask (unasked : s.asked = none) (empty : s.ready = []) :
      IntakeStep H size clear s { s with asked := some s.run.pool.selection }
  | page (now : ℤ) {q : QueueSelection} {page : List ReadyItem} (asked : s.asked = some q)
      (selects : q.Selects s.db now page) :
      IntakeStep H size clear s { s with asked := none, ready := page }
  | forget : IntakeStep H size clear s { s with asked := none, ready := [] }
  /-- It grants what it was offered, in order. -/
  | grant (t : ℤ) {item : ReadyItem} {rest : List ReadyItem} (later : s.run.now ≤ t)
      (offered : s.ready = item :: rest) :
      IntakeStep H size clear s { s with run := s.run.act H t (.grant item), ready := rest }

/-- **A pool taking in work**, on a clock past the zero time. -/
def intake (H : Hashes) (size : AttemptObservation → ℕ) (clear : Intake → Op → Prop) :
    System Intake where
  init s := (joint H size).init s.toJoint ∧ 0 ≤ s.run.now ∧ s.asked = none ∧ s.ready = []
  step := IntakeStep H size clear

namespace Intake

/-- Transactions commit whenever they can. -/
def AnyTime (_ : Intake) (_ : Op) : Prop := True

/-- **`Expire` meets no grant half way.** Of its job's items, none has a
start intent without a row, and none was offered that the pool's clock
still lets it grant. -/
def Clear (s : Intake) : Op → Prop
  | .expire scope id =>
    (∀ r ∈ s.run.pool.startIntents, r.kind = .job → r.ref.job = (scope, id) →
        (s.db.attempts.get? r.permitID).isSome = true)
      ∧ ∀ x ∈ s.ready, x.kind = .job → x.ref.job = (scope, id) → x.deadline ≤ s.run.now
  | _ => True

end Intake

end HardenLlm.Batch
