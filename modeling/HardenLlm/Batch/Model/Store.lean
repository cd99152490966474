import HardenLlm.Common.System
import HardenLlm.Batch.Model.Ledger
/-!
# Jobs, pools and waiting requests

The remaining transactions of the store: `Create` and `Expire` of
`store.go`, `AttachJob` of `queue.go`, the pool generations of
`ledger_store.go` and `handoff.go`, and the ordinary requests of
`request_queue.go`. They close the list of operations, and with it the
transition system of the database: any operation, with any arguments and
any clock readings, at any time.
-/

namespace HardenLlm.Batch

/-! ## Jobs -/

/-- `MaximumItems`. -/
def maximumItems : ℕ := 1000

/-- The arguments of `Create` with what it hashes from them: the job's
UUID, the idempotency hash of the key and the digest of the items. -/
structure Submission where
  scope : String
  key : String
  id : String
  keyHash : String
  digest : String
  items : List Item
  duration : ℤ
  deriving DecidableEq, Repr

structure JobRef where
  scope : String
  jobID : String
  count : ℤ
  createdAt : ℤ
  deadline : ℤ
  workflowID : String
  deriving DecidableEq, Repr

def JobRow.jobRef (j : JobRow) : JobRef :=
  { scope := j.scope, jobID := j.id, count := j.itemCount, createdAt := j.createdAt
    deadline := j.deadline, workflowID := j.workflowID }

namespace Submission

/-- The item rows a submission copies in. -/
def rows (s : Submission) (queuedAt : ℤ) : List ItemRow :=
  s.items.zipIdx.map fun (item, n) =>
    { ref := ⟨s.scope, s.id, n⟩, customID := item.customID, request := item.generation
      queuedAt := queuedAt }

/-- The job row a submission stores. -/
def jobRow (s : Submission) (now : ℤ) : JobRow :=
  { scope := s.scope, id := s.id, idempotencyHash := s.keyHash, inputDigest := s.digest
    itemCount := s.items.length, workflowID := "hllm-batch-v1/" ++ s.id
    createdAt := micro now, deadline := micro (now + s.duration) }

end Submission

/-- A resubmitted snapshot against the accepted one: a defaulted timeout
adopts the stored budget. -/
def sameAcceptedGeneration (accepted requested : Generation) : Prop :=
  accepted.content = requested.content
    ∧ (requested.timeoutDefaulted = true ∨ accepted.timeoutMS = requested.timeoutMS)

instance (a r : Generation) : Decidable (sameAcceptedGeneration a r) :=
  inferInstanceAs (Decidable (_ ∧ _))

/-- The accepted items of a job, compared with a resubmission's one by
one. -/
def sameAcceptedSubmission (db : DB) (scope id : String) (items : List Item) : Prop :=
  ∀ p ∈ items.zipIdx, ∃ row ∈ db.items.get? ⟨scope, id, p.2⟩,
    row.customID = p.1.customID ∧ sameAcceptedGeneration row.request p.1.generation

instance (db : DB) (scope id : String) (items : List Item) :
    Decidable (sameAcceptedSubmission db scope id items) :=
  inferInstanceAs (Decidable (∀ p ∈ items.zipIdx, _))

/-- **Accepting a job.** One job per idempotency key; a second submission
under the key returns the accepted job or conflicts. -/
def create (db : DB) (s : Submission) (c : Clock) : Except Err (JobRef × DB) := do
  require (validScope s.scope ∧ s.key ≠ "" ∧ 1 ≤ s.items.length ∧ s.items.length ≤ maximumItems
    ∧ 0 < s.duration) .invalidManifest
  match db.jobs.rows.find? (fun j => j.scope = s.scope ∧ j.idempotencyHash = s.keyHash) with
  | some prior => do
    require (prior.inputDigest = s.digest ∨ prior.itemCount = s.items.length
      ∧ sameAcceptedSubmission db s.scope prior.id s.items) .conflict
    return (prior.jobRef, db)
  | none => do
    let jobs ← found (db.jobs.insert? (s.jobRow c.now)) .unavailable
    require ((s.items.map Item.customID).Nodup
      ∧ ∀ item ∈ s.items, 1 ≤ item.customID.length ∧ item.customID.length ≤ 128) .unavailable
    let items ← found (db.items.insertAll? (s.rows (micro c.tx))) .unavailable
    return ({ (s.jobRow c.now).jobRef with createdAt := c.now, deadline := c.now + s.duration },
      { db with jobs := jobs, items := items })

/-- The pool takes over a job no other pool owns. -/
def attachJob (db : DB) (pool : String) (generation : ℤ) (scope id : String) :
    Except Err DB := do
  require (validPool pool ∧ validScope scope ∧ validPermitID id) .conflict
  guardPool db pool generation
  let j ← found (db.jobs.get? (scope, id)) .conflict
  require (j.poolID = "" ∨ j.poolID = pool) .conflict
  return { db with
    jobs := db.jobs.modify (scope, id) (fun j => j.poolID = "" ∨ j.poolID = pool)
      ⟨fun j => { j with poolID := pool }, fun _ => rfl⟩ }

/-- The outcome of an item whose job ran out of time. -/
def expiredOutcome : Outcome :=
  { kind := .failed
    error := some { code := "job_deadline_exceeded"
                    message := "The job deadline expired before this item completed." } }

/-- The items `Expire` fails: those not terminal and held by no permit. -/
def ItemRow.expirable (scope id : String) (i : ItemRow) : Bool :=
  i.ref.job = (scope, id) && !i.state.terminal && i.currentPermit = none

/-- **The job's deadline.** Items under a permit are left to their
settlement. -/
def expire (db : DB) (scope id : String) : Except Err DB := do
  let _ ← found (db.jobs.get? (scope, id)) .notFound
  return { db with
    items := db.items.update (ItemRow.expirable scope id)
      ⟨fun i => { i with state := .failed, outcome := expiredOutcome }, fun _ => rfl⟩ }

/-! ## Pool generations -/

def ensurePool (db : DB) (id : String) (generation : ℤ) : Except Err DB := do
  require (validPool id ∧ 1 ≤ generation) .generationFenced
  match db.pools.get? id with
  | some p => do
    require (p.generation = generation ∧ p.mode = .active) .generationFenced
    return db
  | none => do
    let pools ← found
      (db.pools.insert? { poolID := id, generation := generation, mode := .active }) .unavailable
    return { db with pools := pools }

/-- Rewriting one pool marker. -/
def DB.setPool (db : DB) (id : String) (p : PoolGeneration → Bool) (generation : ℤ)
    (mode : Mode) : DB :=
  { db with
    pools := db.pools.modify id p
      ⟨fun m => { m with generation := generation, mode := mode, revision := m.revision + 1 }, fun _ => rfl⟩ }

def quiescePool (db : DB) (id : String) (generation : ℤ) : Except Err DB := do
  let p ← poolRow db id
  require (p.generation = generation) .generationFenced
  return db.setPool id (fun m => m.mode = .active) generation .quiescing

/-- Some attempt of the pool is not both settled and stopped. -/
def attemptOutstanding (db : DB) (id : String) : Prop :=
  ∃ a ∈ db.attempts.rows, a.poolID = id ∧ (a.state ≠ .settled ∨ a.stoppedAt = none)

/-- The items of the jobs a pool owns or might still take over. -/
def poolItems (db : DB) (id : String) (q : ItemRow → Prop) : Prop :=
  ∃ i ∈ db.items.rows, (∃ j ∈ db.jobs.get? i.ref.job, j.poolID = id ∨ j.poolID = "") ∧ q i

instance (db : DB) (id : String) : Decidable (attemptOutstanding db id) :=
  inferInstanceAs (Decidable (∃ a ∈ db.attempts.rows, _))

instance (db : DB) (id : String) (q : ItemRow → Prop) [DecidablePred q] :
    Decidable (poolItems db id q) :=
  inferInstanceAs (Decidable (∃ i ∈ db.items.rows, _))

/-- **Handing the pool to the next generation**, once nothing of the old
one is outstanding. -/
def advancePool (db : DB) (id : String) (old new : ℤ) : Except Err DB := do
  require (new = old + 1) .generationFenced
  let p ← poolRow db id
  if p.generation = new ∧ p.mode = .active then return db
  else do
    require (p.generation = old ∧ p.mode = .quiescing) .generationFenced
    require (¬ (attemptOutstanding db id ∨ poolItems db id (fun i => i.state = .active)))
      .generationFenced
    return db.setPool id (fun _ => true) new .active

structure PoolFence where
  poolID : String
  generation : ℤ
  sequence : ℤ
  deriving DecidableEq, Repr

/-- `SELECT COALESCE(max(sequence),0)` of the pool's attempts. -/
def maxSequence (db : DB) (pool : String) : ℤ :=
  (((db.attempts.rows.filter fun a => a.poolID = pool).map fun a => a.sequence).max?).getD 0

/-- **Taking over a first-generation pool**, once its items are resolved. -/
def adoptLegacyPool (db : DB) (pool : String) : Except Err (PoolFence × DB) := do
  require (validPool pool) .generationFenced
  let marker ← poolRow db pool
  let fence : PoolFence := { poolID := pool, generation := 2, sequence := maxSequence db pool }
  if marker.generation = 2 ∧ marker.mode = .active then return (fence, db)
  else do
    require (marker.generation = 1) .generationFenced
    require (¬ poolItems db pool (fun i => ∃ e ∈ i.outcome.error, e.code = "activity_failed"))
      .legacyExecutionUnresolved
    require (¬ (attemptOutstanding db pool ∨ poolItems db pool (fun i => i.state = .active)))
      .generationFenced
    return (fence, db.setPool pool (fun _ => true) 2 .active)

/-! ## Ordinary requests -/

/-- `requestLiveness`. -/
def requestLiveness : ℤ := 10 * second
/-- `maximumRequestWaiters`. -/
def maximumRequestWaiters : ℕ := 10000

/-- The waiter row a request is stored as. -/
def RequestWaiter.enqueued (w : RequestWaiter) (now : ℤ) : RequestWaiter :=
  { w with
    createdAt := micro now
    deadline := micro w.deadline
    liveUntil := micro (minTime (now + requestLiveness) w.deadline)
    closedAt := none
    permitID := ""
    poolObservedAt := none }

/-- The same request, as a repeated call names it. -/
def RequestWaiter.sameRequest (old w : RequestWaiter) : Prop :=
  old.poolID = w.poolID ∧ old.generation = w.generation ∧ old.scope = w.scope
    ∧ old.ownerID = w.ownerID ∧ old.executionID = w.executionID ∧ old.ordinal = w.ordinal
    ∧ old.budgetMS = w.budgetMS ∧ old.deadline = micro w.deadline

instance (old w : RequestWaiter) : Decidable (old.sameRequest w) :=
  inferInstanceAs (Decidable (_ ∧ _))

def enqueueRequest (db : DB) (w : RequestWaiter) (c : Clock) : Except Err (RequestWaiter × DB) := do
  require (validPermitID w.requestID ∧ validPool w.poolID ∧ validScope w.scope
    ∧ validPermitID w.ownerID ∧ validPermitID w.executionID ∧ 2 ≤ w.generation ∧ 1 ≤ w.ordinal
    ∧ w.ordinal ≤ 1024 ∧ 1 ≤ w.budgetMS ∧ w.budgetMS ≤ 900000) .conflict
  let p ← poolRow db w.poolID
  require (p.generation = w.generation ∧ p.mode = .active) .generationFenced
  match db.waiters.get? w.requestID with
  | some old => do
    require (old.sameRequest w) .conflict
    return (old, db)
  | none => do
    require (c.now < w.deadline ∧ w.deadline ≤ c.now + maximumGenerationBudget) .conflict
    require (db.waiters.count (fun v => v.poolID = w.poolID && v.closedAt = none
      && c.now < v.liveUntil) < maximumRequestWaiters) .unavailable
    require ((∀ v ∈ db.waiters.rows, ¬ (v.poolID = w.poolID ∧ v.scope = w.scope
      ∧ v.executionID = w.executionID ∧ v.ordinal = w.ordinal)) ∧ micro c.now < micro w.deadline)
      .unavailable
    let waiters ← found (db.waiters.insert? (w.enqueued c.now)) .unavailable
    return (w.enqueued c.now, { db with waiters := waiters })

/-- Reading a live request extends its owner's lease; a lapsed owner
cannot revive itself. -/
def readRequest (db : DB) (scope id owner : String) (refresh : Bool) (c : Clock) :
    Except Err (RequestWaiter × DB) := do
  require (validScope scope ∧ validPermitID id ∧ validPermitID owner) .notFound
  let w ← readRequestWaiter db id
  require (w.scope = scope ∧ w.ownerID = owner) .notFound
  if refresh = true ∧ w.closedAt = none ∧ c.now < w.liveUntil ∧ c.now < w.deadline
      ∧ w.liveUntil < minTime (c.now + 5 * second) w.deadline then
    let until_ := minTime (c.now + requestLiveness) w.deadline
    return ({ w with liveUntil := until_ },
      { db with
        waiters := db.waiters.modify id (fun _ => true)
          ⟨fun w => { w with liveUntil := micro until_ }, fun _ => rfl⟩ })
  else return (w, db)

theorem closing_requestID (t : ℤ) (w : RequestWaiter) :
    RequestWaiter.requestID { w with closedAt := w.closedAt.or (some t) } = w.requestID := rfl

/-- The live caller is gone; nothing is said of its invocation. -/
def cancelRequest (db : DB) (scope id owner : String) (c : Clock) : Except Err DB := do
  require (validScope scope ∧ validPermitID id ∧ validPermitID owner) .notFound
  let w ← readRequestWaiter db id
  require (w.scope = scope ∧ w.ownerID = owner) .notFound
  return { db with
    waiters := db.waiters.modify id (fun w => w.scope = scope && w.ownerID = owner)
      ⟨fun w => { w with closedAt := w.closedAt.or (some (micro c.tx)) }, closing_requestID (micro c.tx)⟩ }

/-! ## The database as a transition system -/

/-- **A transaction and its arguments.** -/
inductive Op
  | create (s : Submission)
  | attachJob (pool : String) (generation : ℤ) (scope id : String)
  | expire (scope id : String)
  | ensurePool (id : String) (generation : ℤ)
  | quiescePool (id : String) (generation : ℤ)
  | advancePool (id : String) (old new : ℤ)
  | adoptLegacyPool (pool : String)
  | enqueueRequest (w : RequestWaiter)
  | readRequest (scope id owner : String) (refresh : Bool)
  | cancelRequest (scope id owner : String)
  | reserveAttempt (r : Reservation)
  | claimAttempt (id nonce : String)
  | markDispatch (id nonce : String)
  | stageAttempt (id nonce : String) (o : AttemptObservation)
  | settleAttempt (id nonce : String) (o : AttemptObservation)
  | expireReservation (id : String)
  | markLocalStop (id nonce : String) (time : ℤ)

/-- The database a transaction leaves when it commits. -/
def Op.exec (size : AttemptObservation → ℕ) (op : Op) (c : Clock) (db : DB) : Except Err DB :=
  match op with
  | .create s => Prod.snd <$> Batch.create db s c
  | .attachJob pool generation scope id => Batch.attachJob db pool generation scope id
  | .expire scope id => Batch.expire db scope id
  | .ensurePool id generation => Batch.ensurePool db id generation
  | .quiescePool id generation => Batch.quiescePool db id generation
  | .advancePool id old new => Batch.advancePool db id old new
  | .adoptLegacyPool pool => Prod.snd <$> Batch.adoptLegacyPool db pool
  | .enqueueRequest w => Prod.snd <$> Batch.enqueueRequest db w c
  | .readRequest scope id owner refresh => Prod.snd <$> Batch.readRequest db scope id owner refresh c
  | .cancelRequest scope id owner => Batch.cancelRequest db scope id owner c
  | .reserveAttempt r => Prod.snd <$> Batch.reserveAttempt db r c
  | .claimAttempt id nonce => Prod.snd <$> Batch.claimAttempt db id nonce c
  | .markDispatch id nonce => Prod.snd <$> Batch.markDispatch db id nonce c
  | .stageAttempt id nonce o => Prod.snd <$> Batch.stageAttempt size db id nonce o
  | .settleAttempt id nonce o => Prod.snd <$> Batch.settleAttempt size db id nonce o c
  | .expireReservation id => Prod.snd <$> Batch.expireReservation db id c
  | .markLocalStop id nonce time => Prod.snd <$> Batch.markLocalStop db id nonce time

/-- **The ledger**: an empty database and any transaction that commits. A
transaction that refuses leaves no trace, so it is no step. -/
def ledger (size : AttemptObservation → ℕ) : System DB where
  init := fun db => db = .empty
  step := fun db db' => ∃ op c, Op.exec size op c db = .ok db'

/-- A sequence of transactions, each of which must commit. -/
def execAll (size : AttemptObservation → ℕ) : List (Op × Clock) → DB → Except Err DB
  | [], db => .ok db
  | (op, c) :: rest, db => op.exec size c db >>= execAll size rest

/-- The sequence commits and leaves a database with the property. -/
def Leads (size : AttemptObservation → ℕ) (script : List (Op × Clock)) (db : DB)
    (P : DB → Prop) : Prop :=
  ∃ db', execAll size script db = .ok db' ∧ P db'

instance (size : AttemptObservation → ℕ) (script : List (Op × Clock)) (db : DB) (P : DB → Prop)
    [DecidablePred P] : Decidable (Leads size script db P) :=
  match h : execAll size script db with
  | .ok db' => decidable_of_iff (P db') (by simp [Leads, h])
  | .error _ => isFalse (by simp [Leads, h])

section

variable {size : AttemptObservation → ℕ} {script : List (Op × Clock)} {P : DB → Prop} {db db' : DB}

/-- **Induction over a sequence.** What every transaction of it keeps holds
after it. -/
theorem execAll_induction
    (hstep : ∀ e ∈ script, ∀ db db', P db → e.1.exec size e.2 db = .ok db' → P db')
    (h : execAll size script db = .ok db') (hp : P db) : P db' := by
  induction script generalizing db with
  | nil =>
    cases h
    exact hp
  | cons e rest ih =>
    obtain ⟨db₁, h₁, hrest⟩ := bind_eq_ok.1 h
    exact ih (fun e he => hstep e (List.mem_cons_of_mem _ he)) hrest
      (hstep e List.mem_cons_self db db₁ hp h₁)

/-- A sequence of transactions is a run. -/
theorem run_of_execAll (h : execAll size script db = .ok db') : (ledger size).Run db db' :=
  execAll_induction (P := (ledger size).Run db) (fun e _ _ _ hrun hx => hrun.tail ⟨e.1, e.2, hx⟩) h
    (.refl db)

/-- What a sequence from the empty database leads to is reachable. -/
theorem Leads.reach (h : Leads size script .empty P) : ∃ db, (ledger size).Reach db ∧ P db := by
  obtain ⟨db, hexec, hp⟩ := h
  exact ⟨db, (System.Reach.init rfl).run (run_of_execAll hexec), hp⟩

end

/-! ## A sample run

One job with one item, its permit reserved, claimed and dispatched in the
thousandth second. -/

namespace Sample

def scope : String := "aaaaaaaaaaaaaaaaaaaaaaaaaaaaaaaaaaaaaaaaaaaaaaaaaaaaaaaaaaaaaaaa"
def job : String := "11111111-1111-4111-8111-111111111111"
def permit : String := "22222222-2222-4222-8222-222222222222"
def nonce : String := "33333333-3333-4333-8333-333333333333"
def ref : Ref := ⟨scope, job, 0⟩

/-- A clock whose readings all fall on one second. -/
def clock (s : ℤ) : Clock := ⟨s * second, s * second, s * second, s * second⟩

def submission : Submission where
  scope := scope
  key := "key"
  id := job
  keyHash := "hash"
  digest := "digest"
  items := [{ customID := "a", generation := { content := "", timeoutMS := 300000 } }]
  duration := 100 * second

def reservation : Reservation where
  permitID := permit
  poolID := "pool"
  generation := 2
  sequence := 1
  ref := ref
  kind := .job
  workflowID := "hllm-cpa-attempt-v2/" ++ permit
  grantedAt := 1000 * second
  startBy := 1005 * second
  deadline := 1100 * second
  budgetMS := 300000
  windowID := 1
  epoch := 1
  policyRevision := 1
  probe := false

/-- The item submitted and attached to its pool. -/
def submitted : List (Op × Clock) :=
  [(.ensurePool "pool" 2, clock 1000), (.create submission, clock 1000),
    (.attachJob "pool" 2 scope job, clock 1000)]

/-- Its permit reserved. -/
def reserved : List (Op × Clock) := submitted ++ [(.reserveAttempt reservation, clock 1000)]

/-- Its permit claimed and dispatched. -/
def dispatched : List (Op × Clock) :=
  reserved ++ [(.claimAttempt permit nonce, clock 1001), (.markDispatch permit nonce, clock 1002)]

/-- A failure observed in the provider, `ns` nanoseconds into its second. -/
def failure (ns : ℤ) (stopped : Bool) : AttemptObservation :=
  { outcome := { kind := .failed }, nativeEntered := true, localStopped := stopped
    observedAt := 1003 * second + ns }

/-- The marshalled length of such a failure. -/
def size (o : AttemptObservation) : ℕ := if o.localStopped then 201 else 202

end Sample

end HardenLlm.Batch
