import Mathlib.Data.String.Basic
import HardenLlm.Batch.Model.Intake
import HardenLlm.Common.Pages
import HardenLlm.Common.Rotation
/-!
# The ready page

`SelectReady` and its statement `readyPageSQL`. Work is owned by jobs and
by waiting requests, numbered as they were enqueued. A page goes round the
scopes, within a scope round its owners from where the pool's cursor
stands, and leaves the cursor at the last owner it took.
-/

namespace HardenLlm.Batch

/-- Who work waits for: a job with its items, or a request. -/
inductive Enqueued
  | job (key : String × String)
  | request (id : String)
  deriving DecidableEq, Repr

def ReadyItem.enqueued (x : ReadyItem) : Enqueued :=
  match x.kind with
  | .job => .job x.ref.job
  | .ordinary => .request x.requestID

/-- The rows that carry an `enqueue_sequence`. -/
def DB.enqueued (db : DB) : List Enqueued :=
  db.jobs.rows.map (fun j => .job j.key) ++ db.waiters.rows.map fun w => .request w.requestID

/-- **The queue**: the tables, the `enqueue_sequence` of their owners, and
`batch_pool_scope_cursors`. Jobs and requests draw their numbers from one
sequence, which gives none twice. -/
structure Queue where
  db : DB
  enqueueSequence : Enqueued → ℤ
  cursors : String × String → Option ℤ
  distinct : ∀ o ∈ db.enqueued, ∀ o' ∈ db.enqueued, enqueueSequence o = enqueueSequence o' → o = o'

/-- What `SelectReady` is asked for, with the scope to go on from and the
limit. -/
structure ReadySelection extends QueueSelection where
  afterScope : String := ""
  limit : ℤ
  deriving DecidableEq, Repr

structure ReadyPage where
  items : List ReadyItem
  afterScope : String
  deriving DecidableEq, Repr

namespace ReadySelection

variable (sel : ReadySelection)

/-- The questions `SelectReady` accepts. -/
def accepted : Prop :=
  sel.wellFormed ∧ 1 ≤ sel.limit ∧ sel.limit ≤ 128
    ∧ (sel.afterScope = "" ∨ validScope sel.afterScope = true)

instance : Decidable sel.accepted := inferInstanceAs (Decidable (_ ∧ _))

/-- The job is the pool's and has time. -/
def jobReady (now : ℤ) (j : JobRow) : Prop := j.poolID = sel.poolID ∧ now < j.deadline

instance (now : ℤ) (j : JobRow) : Decidable (sel.jobReady now j) :=
  inferInstanceAs (Decidable (_ ∧ _))

/-- The item is the job's, waits, and is not excluded. -/
def itemReady (j : JobRow) (i : ItemRow) : Prop :=
  i.ref.job = j.key ∧ i.state.open = true ∧ i.currentPermit = none ∧ i.ref ∉ sel.exclude

instance (j : JobRow) (i : ItemRow) : Decidable (sel.itemReady j i) :=
  inferInstanceAs (Decidable (_ ∧ _))

/-- The request waits, for a live caller, and is not excluded. -/
def requestReady (now : ℤ) (w : RequestWaiter) : Prop :=
  w.poolID = sel.poolID ∧ w.generation = sel.generation ∧ now < w.deadline ∧ now < w.liveUntil
    ∧ w.closedAt = none ∧ w.permitID = "" ∧ w.requestID ∉ sel.excludeRequests

instance (now : ℤ) (w : RequestWaiter) : Decidable (sel.requestReady now w) :=
  inferInstanceAs (Decidable (_ ∧ _))

end ReadySelection

/-- A row of `candidates`, before its turn. -/
inductive Candidate
  | item (i : ItemRow) (j : JobRow)
  | request (w : RequestWaiter)
  deriving DecidableEq, Repr

namespace Candidate

def scope : Candidate → String
  | item _ j => j.scope
  | request w => w.scope

def enqueued : Candidate → Enqueued
  | item _ j => .job j.key
  | request w => .request w.requestID

def ready : Candidate → ReadyItem
  | item i j => i.ready j
  | request w => w.ready

/-- **The scan of a row.** A budget out of range fails the page. -/
def scan : Candidate → Except Err ReadyItem
  | item i j => do
    require (0 < generationBudget i.request) .conflict
    return i.ready j
  | request w => do
    require (1 ≤ w.budgetMS ∧ w.budgetMS ≤ 900000) .conflict
    return w.ready

end Candidate

namespace Queue

variable (q : Queue) (sel : ReadySelection) (now : ℤ)

/-- `COALESCE(c.last_job_sequence,0)`. -/
def cursor (pool scope : String) : ℤ := (q.cursors (pool, scope)).getD 0

/-- The number of a row's owner. -/
def sequence (c : Candidate) : ℤ := q.enqueueSequence c.enqueued

/-- A job's waiting items, the longest waiting first, at most a page of
them. -/
def jobItems (j : JobRow) : List ItemRow :=
  (Pages.orderBy (fun i : ItemRow => toLex (i.queuedAt, i.ref.index))
    (q.db.items.rows.filter fun i => sel.itemReady j i)).take sel.limit.toNat

/-- **`candidates`**, each row with its `item_turn`. A request has one. -/
def candidates : List (Candidate × ℕ) :=
  ((q.db.jobs.rows.filter fun j => sel.jobReady now j).flatMap fun j =>
      ((q.jobItems sel j).zipIdx 1).map fun e => (.item e.1 j, e.2))
    ++ (q.db.waiters.rows.filter fun w => sel.requestReady now w).map fun w => (.request w, 1)

/-- The order within a scope. -/
def turnKey (e : Candidate × ℕ) : ℕ ×ₗ (Bool ×ₗ ℤ) :=
  toLex (e.2, toLex (decide (q.sequence e.1 ≤ q.cursor sel.poolID e.1.scope), q.sequence e.1))

/-- The order among scopes. -/
def scopeRank (scope : String) : Bool ×ₗ String := toLex (decide (scope ≤ sel.afterScope), scope)

/-- **`readyPageSQL`.** -/
def readyPage : List (Candidate × ℕ) :=
  Pages.page (fun e => e.1.scope) (q.turnKey sel) (scopeRank sel) sel.limit.toNat
    (q.candidates sel now)

/-- The upsert of `batch_pool_scope_cursors`: for each scope of the page the
number of its last owner. -/
def advance (rows : List (Candidate × ℕ)) : Queue :=
  { q with
    cursors := rows.foldl
      (fun m e => Function.update m (sel.poolID, e.1.scope) (some (q.sequence e.1))) q.cursors }

/-- **`SelectReady`.** -/
def selectReady : Except Err (ReadyPage × Queue) := do
  require sel.accepted .unavailable
  guardPool q.db sel.poolID sel.generation
  let rows := q.readyPage sel now
  let items ← rows.mapM fun e => e.1.scan
  let after := (items.getLast?.map fun x => x.ref.scope).getD sel.afterScope
  return (⟨items, after⟩, q.advance sel rows)

/-- **What may be offered**: an item that is queued or waiting, without a
permit, of a job of the pool before its deadline; or a request of the pool
and its generation, without a permit, whose caller is live. Neither is
excluded. -/
def Eligible (x : ReadyItem) : Prop :=
  (∃ j ∈ q.db.jobs.rows, ∃ i ∈ q.db.items.rows,
      sel.jobReady now j ∧ sel.itemReady j i ∧ x = i.ready j)
    ∨ ∃ w ∈ q.db.waiters.rows, sel.requestReady now w ∧ x = w.ready

/-- **The choices a page makes in a scope**: whose turn it was, and who else
had something to offer that the page did not hold yet. -/
def choices (scope : String) (items : List ReadyItem) : List (Rotation.Pick ℤ) :=
  Rotation.picks (fun x => q.Eligible sel now x ∧ x.ref.scope = scope)
    (fun x => q.enqueueSequence x.enqueued) [] (items.filter fun x => x.ref.scope = scope)

end Queue

/-- A queue, the cursor it was found with, and the choices made in one
scope since. -/
structure Rota where
  queue : Queue
  start : ℤ
  made : List (Rotation.Pick ℤ)

/-- **A step of the queue**: a selection of the pool, or anything else,
which may change every row but not where the pool's cursor stands. -/
inductive RotaStep (pool scope : String) (s : Rota) : Rota → Prop
  | select (sel : ReadySelection) (now : ℤ) {page : ReadyPage} {q : Queue}
      (asked : sel.poolID = pool) (selected : s.queue.selectReady sel now = .ok (page, q)) :
      RotaStep pool scope s
        { s with queue := q, made := s.made ++ s.queue.choices sel now scope page.items }
  | other {q : Queue} (kept : q.cursor pool scope = s.queue.cursor pool scope) :
      RotaStep pool scope s { s with queue := q }

/-- **Selections one after the other**, in one scope of a pool. -/
def rota (pool scope : String) : System Rota where
  init s := s.start = s.queue.cursor pool scope ∧ s.made = []
  step := RotaStep pool scope

end HardenLlm.Batch
