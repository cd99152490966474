import HardenLlm.Common.Transaction
import HardenLlm.Batch.Model.Types
/-!
# The claim ledger

The transactions of `ledger_store.go` and `ledger_claim.go` on one permit:
reservation, claim, dispatch, staging, settlement, expiry and local stop.
Each is atomic, taking its row with `FOR UPDATE`; it returns the row it
leaves together with the new database, or refuses and changes nothing. A
transaction reads the clock more than once, and the readings are the
fields of a `Clock`.
-/

namespace HardenLlm.Batch

/-! ## Reading and guarding -/

def readAttempt (db : DB) (id : String) : Except Err Attempt :=
  found (db.attempts.get? id) .notFound

def poolRow (db : DB) (pool : String) : Except Err PoolGeneration :=
  found (db.pools.get? pool) .notFound

def readRequestWaiter (db : DB) (id : String) : Except Err RequestWaiter :=
  found (db.waiters.get? id) .notFound

/-- **Only the active current generation may admit work.** -/
def guardPool (db : DB) (pool : String) (generation : ℤ) : Except Err Unit := do
  let p ← poolRow db pool
  require (p.generation = generation ∧ p.mode = .active) .generationFenced

/-- The waiter a reservation was granted for. -/
def requestMatchesReservation (w : RequestWaiter) (r : Reservation) : Prop :=
  w.poolID = r.poolID ∧ w.generation = r.generation ∧ w.scope = r.ref.scope
    ∧ w.requestID = r.requestID ∧ w.budgetMS = r.budgetMS ∧ w.deadline = micro r.deadline

instance (w : RequestWaiter) (r : Reservation) : Decidable (requestMatchesReservation w r) :=
  inferInstanceAs (Decidable (_ ∧ _))

/-- An ordinary permit may be used only by its live owner. -/
def guardRequestClaim (db : DB) (a : Attempt) (nonce : String) (now : ℤ) : Except Err Unit :=
  match a.kind with
  | .job => pure ()
  | .ordinary => do
    let w ← readRequestWaiter db a.requestID
    require (requestMatchesReservation w a.toReservation ∧ w.ownerID = nonce
      ∧ w.permitID = a.permitID ∧ w.closedAt = none ∧ now < w.liveUntil ∧ now < w.deadline)
      .claimOwned

/-! ## What each transaction writes into its row -/

namespace Attempt

/-- The claim: a nonce, its time, and the generation deadline it fixes. -/
def claimed (a : Attempt) (nonce : String) (now deadline : ℤ) : Attempt :=
  { a with
    state := .dispatching
    claimID := nonce
    claimedAt := some (micro now)
    generationDeadline := some (micro deadline) }

/-- The intent to enter the provider. -/
def dispatched (a : Attempt) (now : ℤ) : Attempt := { a with dispatchedAt := some (micro now) }

/-- `local_stopped_at=CASE WHEN $4 THEN $5 ELSE local_stopped_at END`. -/
def stopEvidence (a : Attempt) (o : AttemptObservation) : Option ℤ :=
  if o.localStopped then some (micro o.observedAt) else a.stoppedAt

/-- An observation stored ahead of its settlement. -/
def staged (a : Attempt) (o : AttemptObservation) : Attempt :=
  { a with observation := some o, stoppedAt := a.stopEvidence o }

/-- The terminal row. -/
def settledWith (a : Attempt) (o : AttemptObservation) : Attempt :=
  { a with
    state := .settled
    observation := some o
    settlementRevision := 1
    stoppedAt := a.stopEvidence o }

/-- Local-stop evidence on its own, which reopens a settled revision. -/
def stopped (a : Attempt) (time : ℤ) : Attempt :=
  { a with
    stoppedAt := some (micro time)
    settlementRevision :=
      if a.state = .settled then a.settlementRevision + 1 else a.settlementRevision }

end Attempt

/-- The observation of a permit whose claim never came. -/
def neverDispatchedAt (now : ℤ) : AttemptObservation :=
  { outcome := { kind := .neverDispatched }, localStopped := true, observedAt := now }

/-! ## Reservation -/

/-- A job reservation repeats the item's accepted budget and deadline. -/
def reservationMatchesSnapshot (r : Reservation) (g : Generation) (jobDeadline : ℤ) : Prop :=
  0 < generationBudget g ∧ r.budgetMS = milliseconds (generationBudget g)
    ∧ r.deadline ≠ 0 ∧ r.deadline ≤ jobDeadline

instance (r : Reservation) (g : Generation) (d : ℤ) :
    Decidable (reservationMatchesSnapshot r g d) :=
  inferInstanceAs (Decidable (_ ∧ _))

/-- The rows a new attempt may not stand beside: the unique constraints
and partial unique indexes of `batch_attempts`. -/
def Attempt.clashes (a b : Attempt) : Prop :=
  b.workflowID = a.workflowID ∨ (b.poolID = a.poolID ∧ b.sequence = a.sequence)
    ∨ (b.kind = .job ∧ a.kind = .job ∧ b.ref = a.ref
        ∧ (b.ordinal = a.ordinal ∨ b.state ≠ .settled))
    ∨ (b.kind = .ordinary ∧ a.kind = .ordinary ∧ b.poolID = a.poolID
        ∧ b.ref.scope = a.ref.scope ∧ b.requestID = a.requestID)

instance (a b : Attempt) : Decidable (a.clashes b) := inferInstanceAs (Decidable (_ ∨ _))

/-- `INSERT INTO batch_attempts`. -/
def insertAttempt (db : DB) (a : Attempt) : Except Err DB := do
  require ((∀ b ∈ db.attempts.rows, ¬ a.clashes b)
    ∧ 0 ≤ a.epoch ∧ 0 ≤ a.windowID ∧ 0 < a.ordinal) .unavailable
  let attempts ← found (db.attempts.insert? a) .unavailable
  return { db with attempts := attempts }

/-- The row a reservation is stored as. -/
def Reservation.row (r : Reservation) (ordinal : ℤ) : Attempt :=
  { r.stored with ordinal := ordinal }

/-- The item of a job reservation becomes active under the new permit. -/
def reserveItem (db : DB) (r : Reservation) : Except Err (Attempt × DB) := do
  let i ← found (db.items.get? r.ref) .notFound
  let j ← found (db.jobs.get? r.ref.job) .notFound
  require (reservationMatchesSnapshot r i.request j.deadline) .conflict
  -- the permit is already current only where its row exists, which this branch excludes
  require (i.currentPermit ≠ some r.permitID) .notFound
  require (¬ ((j.poolID ≠ "" ∧ j.poolID ≠ r.poolID) ∨ i.currentPermit ≠ none
    ∨ i.state.open = false)) .conflict
  let a := r.row (i.reservationOrdinal + 1)
  let db₁ ← insertAttempt db a
  return (a,
    { db₁ with
      jobs := db₁.jobs.modify r.ref.job (fun j => j.poolID = "")
        ⟨fun j => { j with poolID := r.poolID }, fun _ => rfl⟩
      items := db₁.items.modify r.ref (fun _ => true)
        ⟨fun i => { i with
          currentPermit := some r.permitID
          reservationOrdinal := i.reservationOrdinal + 1
          state := .active }, fun _ => rfl⟩ })

/-- The waiter's caller has gone, or its time has. -/
def RequestWaiter.lapsed (w : RequestWaiter) (now : ℤ) : Bool :=
  w.closedAt ≠ none ∨ w.liveUntil ≤ now ∨ w.deadline ≤ now

/-- The waiter row once it holds its permit; a lapsed one is closed. -/
def RequestWaiter.granted (w : RequestWaiter) (permit : String) (lapsed : Bool) (now : ℤ) :
    RequestWaiter :=
  { w with
    permitID := permit
    closedAt := if lapsed then w.closedAt.or (some (micro now)) else w.closedAt }

/-- The row an ordinary reservation is stored as. The selection can race
the caller's disconnection; a lapsed grant is kept as positively never
sent, so that it can settle its capacity. -/
def Reservation.requestRow (r : Reservation) (ordinal : ℤ) (lapsed : Bool) (now : ℤ) : Attempt :=
  if lapsed then (r.row ordinal).settledWith (neverDispatchedAt now) else r.row ordinal

/-- The waiter of an ordinary reservation takes the permit. -/
def reserveRequest (db : DB) (r : Reservation) (c : Clock) : Except Err (Attempt × DB) := do
  let w ← readRequestWaiter db r.requestID
  require (requestMatchesReservation w r ∧ w.permitID = "") .conflict
  let a := r.requestRow w.ordinal (w.lapsed c.guard) c.now
  let db₁ ← insertAttempt db a
  require (∀ v ∈ db.waiters.rows, v.requestID ≠ r.requestID → v.permitID ≠ r.permitID) .unavailable
  return (a,
    { db₁ with
      waiters := db₁.waiters.modify r.requestID (fun _ => true)
        ⟨fun w' => w'.granted r.permitID (w.lapsed c.guard) c.now, fun _ => rfl⟩ })

/-- The arguments `ReserveAttempt` accepts. -/
def Reservation.wellFormed (r : Reservation) : Prop :=
  validPermitID r.permitID ∧ validPool r.poolID ∧ validScope r.ref.scope ∧ 1 ≤ r.generation
    ∧ 1 ≤ r.sequence ∧ 0 < r.workflowID.utf8ByteSize ∧ r.workflowID.utf8ByteSize ≤ 256
    ∧ 1 ≤ r.budgetMS ∧ r.budgetMS ≤ 900000 ∧ 1 ≤ r.policyRevision
    ∧ match r.kind with
      | .job => validPermitID r.ref.jobID ∧ 0 ≤ r.ref.index ∧ r.ref.index < 1000 ∧ r.requestID = ""
      | .ordinary => validPermitID r.requestID ∧ r.ref.jobID = "" ∧ r.ref.index = 0

instance (r : Reservation) : Decidable r.wellFormed := by
  unfold Reservation.wellFormed
  cases r.kind <;> infer_instance

/-- **Turning a grant into a row.** A repeated call returns the row it
made the first time. -/
def reserveAttempt (db : DB) (r : Reservation) (c : Clock) : Except Err (Attempt × DB) := do
  require r.wellFormed .unavailable
  guardPool db r.poolID r.generation
  match db.attempts.get? r.permitID with
  | some old => do
    require (sameReservation old.toReservation r) .conflict
    return (old, db)
  | none =>
    match r.kind with
    | .job => reserveItem db r
    | .ordinary => reserveRequest db r c

/-! ## Claim and dispatch -/

/-- **The claim.** The first nonce to find the row reserved owns it. -/
def claimAttempt (db : DB) (id nonce : String) (c : Clock) : Except Err (Attempt × DB) := do
  require (validPermitID id ∧ validPermitID nonce) .claimUnconfirmed
  let a ← readAttempt db id
  require (a.state = .reserved ∧ a.claimID = "") .claimOwned
  guardPool db a.poolID a.generation
  guardRequestClaim db a nonce c.guard
  require (c.now < a.startBy ∧ c.now < a.deadline) .claimOwned
  let deadline := minTime a.deadline (c.now + a.budgetMS * millisecond)
  return (a.claimed nonce c.now deadline,
    { db with
      attempts := db.attempts.modify id (fun a => a.state = .reserved)
        ⟨fun a => a.claimed nonce c.now deadline, fun _ => rfl⟩ })

/-- `UPDATE batch_items SET attempts=attempts+1 …`, which must find the
active item under its current permit and within its budget. -/
def countDispatch (db : DB) (a : Attempt) : Except Err DB :=
  match a.kind with
  | .ordinary => pure db
  | .job => do
    let i ← found (db.items.get? a.ref) .claimOwned
    require (i.currentPermit = some a.permitID ∧ i.state = .active ∧ i.attempts < 16) .claimOwned
    return { db with
      items := db.items.modify a.ref (fun _ => true)
        ⟨fun i => { i with attempts := i.attempts + 1 }, fun _ => rfl⟩ }

/-- **The dispatch intent**, written once by the claim's own nonce before
the provider is entered. -/
def markDispatch (db : DB) (id nonce : String) (c : Clock) : Except Err (Attempt × DB) := do
  let a ← readAttempt db id
  require (a.claimID = nonce ∧ a.state = .dispatching ∧ a.stoppedAt = none ∧ a.observation = none)
    .claimOwned
  require (a.dispatchedAt = none) .claimOwned
  guardPool db a.poolID a.generation
  guardRequestClaim db a nonce c.guard
  require (c.now < a.startBy ∧ c.now < a.executionDeadline) .claimOwned
  let db₁ ← countDispatch db a
  return (a.dispatched c.now,
    { db₁ with
      attempts := db₁.attempts.modify id (fun _ => true) ⟨fun a => a.dispatched c.now, fun _ => rfl⟩ })

/-- What the claim's read-back takes for its own write: `written` is the
row the unacknowledged transaction left. -/
def acceptsClaim (written a : Attempt) : Prop :=
  sameReservation a.toReservation written.toReservation ∧ a.claimedAt = written.claimedAt
    ∧ a.generationDeadline = written.generationDeadline ∧ a.dispatchedAt = none

/-- What the dispatch's read-back takes for its own write. -/
def acceptsDispatch (written a : Attempt) : Prop :=
  sameReservation a.toReservation written.toReservation ∧ a.claimedAt = written.claimedAt
    ∧ a.generationDeadline = written.generationDeadline
    ∧ a.dispatchedAt ≠ none ∧ a.dispatchedAt = written.dispatchedAt

instance (w a : Attempt) : Decidable (acceptsClaim w a) := inferInstanceAs (Decidable (_ ∧ _))
instance (w a : Attempt) : Decidable (acceptsDispatch w a) := inferInstanceAs (Decidable (_ ∧ _))

/-- **One read-back of `confirmAttemptWrite`**: the row must still be an
unobserved, unstopped claim of this nonce, within its times and admitted
by its pool and its owner. -/
def confirmAttemptWrite (db : DB) (id nonce : String) (accepts : Attempt → Prop)
    [DecidablePred accepts] (c : Clock) : Except Err Attempt := do
  let a ← readAttempt db id
  require (a.state = .dispatching ∧ a.claimID = nonce ∧ a.claimedAt ≠ none ∧ a.stoppedAt = none
    ∧ a.observation = none ∧ c.now < a.startBy ∧ c.now < a.executionDeadline ∧ accepts a)
    .claimUnconfirmed
  guardPool db a.poolID a.generation
  guardRequestClaim db a nonce c.guard
  return a

/-! ## Observations -/

/-- `validObservation`; `size` is the length of the marshalled
observation. -/
def validObservation (size : AttemptObservation → ℕ) (o : AttemptObservation) : Prop :=
  (∀ s, o.outcome.kind ≠ .other s) ∧ o.observedAt ≠ 0
    ∧ (o.outcome.kind = .completed → o.nativeEntered = true)
    ∧ (o.outcome.kind = .neverDispatched → o.nativeEntered = false ∧ o.localStopped = true)
    ∧ size o ≤ 60000

def OutcomeKind.known : OutcomeKind → Bool
  | .other _ => false
  | _ => true

theorem OutcomeKind.known_iff (k : OutcomeKind) : k.known = true ↔ ∀ s, k ≠ .other s := by
  cases k <;> simp [known]

instance (k : OutcomeKind) : Decidable (∀ s, k ≠ .other s) := decidable_of_iff _ k.known_iff

instance (size : AttemptObservation → ℕ) (o : AttemptObservation) :
    Decidable (validObservation size o) :=
  inferInstanceAs (Decidable (_ ∧ _))

/-- An observation at storage precision, as `sameObservation` compares
it. -/
def AttemptObservation.canonical (o : AttemptObservation) : AttemptObservation :=
  { o with
    observedAt := micro o.observedAt
    outcome := { o.outcome with
      startedAt := o.outcome.startedAt.map micro
      finishedAt := o.outcome.finishedAt.map micro
      generationDeadline := o.outcome.generationDeadline.map micro } }

/-- The part of an observation that settlement compares: storage
precision, local-stop evidence set aside. -/
def AttemptObservation.terminal (o : AttemptObservation) : AttemptObservation :=
  { o with localStopped := false }.canonical

def sameTerminalObservation (a b : AttemptObservation) : Prop := a.terminal = b.terminal

instance (a b : AttemptObservation) : Decidable (sameTerminalObservation a b) :=
  inferInstanceAs (Decidable (_ = _))

/-- Only a completed job attempt has an artifact, and it must. -/
def observationMatchesOwner (a : Attempt) (o : AttemptObservation) : Prop :=
  match a.kind with
  | .ordinary => o.outcome.artifactID = ""
  | .job => o.outcome.kind ≠ .completed ∨ o.outcome.artifactID ≠ ""

instance (a : Attempt) (o : AttemptObservation) : Decidable (observationMatchesOwner a o) := by
  unfold observationMatchesOwner
  cases a.kind <;> infer_instance

/-! ## Settlement -/

/-- The item's terminal error when its refusal budget is spent. -/
def refusalBudgetExhausted : ItemError :=
  { code := "refusal_budget_exhausted", message := "The item reached its refusal budget." }

/-- The item's terminal error when its deadline passed before dispatch. -/
def jobDeadlineExceeded : ItemError :=
  { code := "job_deadline_exceeded", message := "The job deadline expired before dispatch." }

/-- **What an outcome makes of its item**: the state, the outcome stored
and the attempts counted. A refusal waits for another attempt and an unsent
attempt is queued again with its count refunded, both only before the job's
deadline. -/
def itemVerdict (out : Outcome) (attempts : ℤ) (dispatched : Bool) (deadline now : ℤ) :
    ItemState × Outcome × ℤ :=
  match out.kind with
  | .completed => (.succeeded, out, attempts)
  | .rejected =>
    if attempts < 16 then (if now < deadline then .waiting else .failed, out, attempts)
    else (.failed, { out with kind := .failed, error := some refusalBudgetExhausted }, attempts)
  | .neverDispatched =>
    let refunded := if dispatched then max 0 (attempts - 1) else attempts
    if now < deadline then (.queued, out, refunded)
    else (.failed, { out with kind := .failed, error := some jobDeadlineExceeded }, refunded)
  | _ => (.failed, out, attempts)

/-- The item row after `applyAttemptItem`. -/
def ItemRow.settledBy (i : ItemRow) (a : Attempt) (o : AttemptObservation) (deadline : ℤ)
    (c : Clock) : ItemRow :=
  let v := itemVerdict o.outcome i.attempts a.dispatchedAt.isSome deadline c.item
  { i with
    state := v.1
    outcome := v.2.1
    attempts := v.2.2
    currentPermit := none
    queuedAt := if v.1.open then micro c.tx else i.queuedAt }

/-- **Releasing the permit's owner**: the waiter is closed, or the item
takes its verdict. A permit that is no longer current settles nothing. -/
def applyAttemptItem (db : DB) (a : Attempt) (o : AttemptObservation) (c : Clock) : Except Err DB :=
  match a.kind with
  | .ordinary =>
    pure { db with
      waiters := db.waiters.modify a.requestID (fun w => w.permitID = a.permitID)
        ⟨fun w => { w with closedAt := w.closedAt.or (some (micro c.tx)) }, fun _ => rfl⟩ }
  | .job => do
    let i ← found (db.items.get? a.ref) .notFound
    let j ← found (db.jobs.get? a.ref.job) .notFound
    require (i.currentPermit = some a.permitID ∧ i.state.terminal = false) .settlementConflict
    return { db with
      items := db.items.modify a.ref (fun i => i.currentPermit = some a.permitID)
        ⟨fun i => i.settledBy a o j.deadline c, fun _ => rfl⟩ }

section Settlement

variable (size : AttemptObservation → ℕ)

/-- **Storing an observation before settlement.** The first one stays. -/
def stageAttempt (db : DB) (id nonce : String) (o : AttemptObservation) :
    Except Err (Attempt × DB) := do
  require (validObservation size o) .settlementConflict
  let a ← readAttempt db id
  require (a.claimID = nonce ∧ a.state ≠ .reserved) .claimOwned
  require (observationMatchesOwner a o) .settlementConflict
  match a.observation with
  | some prior => do
    require (sameTerminalObservation prior o) .settlementConflict
    return (a, db)
  | none =>
    return (a.staged o,
      { db with
        attempts := db.attempts.modify id (fun a => a.claimID = nonce) ⟨fun a => a.staged o, fun _ => rfl⟩ })

/-- **Settlement.** A settled row answers a matching observation and
refuses any other; an unsettled one takes the observation, if a staged one
does not contradict it, and releases its owner. -/
def settleAttempt (db : DB) (id nonce : String) (o : AttemptObservation) (c : Clock) :
    Except Err (Attempt × DB) := do
  require (validObservation size o) .settlementConflict
  let a ← readAttempt db id
  require (a.claimID = nonce ∧ a.state ≠ .reserved) .claimOwned
  require (observationMatchesOwner a o) .settlementConflict
  require (∀ prior ∈ a.observation, sameTerminalObservation prior o) .settlementConflict
  if a.state = .settled then do
    require (a.observation ≠ none) .settlementConflict
    return (a, db)
  else do
    require (o.nativeEntered = true → a.dispatchedAt ≠ none) .settlementConflict
    require (o.outcome.kind = .completed → ∃ t ∈ o.outcome.finishedAt, t ≤ a.executionDeadline)
      .settlementConflict
    let db₁ ← applyAttemptItem db a o c
    return (a.settledWith o,
      { db₁ with
        attempts := db₁.attempts.modify id (fun a => a.claimID = nonce)
          ⟨fun a => a.settledWith o, fun _ => rfl⟩ })

/-- The read-back of a settlement whose transaction failed to report. -/
def confirmSettlement (db : DB) (id nonce : String) (o : AttemptObservation) :
    Except Err Attempt := do
  let a ← readAttempt db id
  require (a.state = .settled ∧ a.claimID = nonce
    ∧ ∃ stored ∈ a.observation, sameTerminalObservation stored o) .unavailable
  return a

end Settlement

/-- **Expiry of a reservation nobody claimed** before its start time. -/
def expireReservation (db : DB) (id : String) (c : Clock) : Except Err (Attempt × DB) := do
  let a ← readAttempt db id
  if a.state = .settled then return (a, db)
  else do
    require (a.state = .reserved ∧ a.claimID = "") .claimOwned
    require (a.startBy ≤ c.guard) .claimOwned
    let o := neverDispatchedAt c.now
    let db₁ ← applyAttemptItem db a o c
    return (a.settledWith o,
      { db₁ with
        attempts := db₁.attempts.modify id (fun a => a.state = .reserved)
          ⟨fun a => a.settledWith o, fun _ => rfl⟩ })

/-- **Evidence that the claim's invocation is over**, with or without an
observation of it. -/
def markLocalStop (db : DB) (id nonce : String) (time : ℤ) : Except Err (Attempt × DB) := do
  let a ← readAttempt db id
  require (a.claimID = nonce ∧ a.claimID ≠ "") .claimOwned
  if a.stoppedAt = none then
    return (a.stopped time,
      { db with
        attempts := db.attempts.modify id (fun a => a.claimID = nonce) ⟨fun a => a.stopped time, fun _ => rfl⟩ })
  else return (a, db)

end HardenLlm.Batch
