import Mathlib.Data.Int.Notation
import Mathlib.Tactic.Common
import HardenLlm.Common.Table
/-!
# The batch package's data

Go times are nanoseconds since the zero time, which is `0`; durations are
nanoseconds too, and Go integers are `ℤ`. Columns of type `timestamptz` keep microseconds, so a
time is cut by `micro` on its way into a row. An empty string is the
absent value where the source reads SQL `NULL` into `""`.
-/

/-- `math.MaxInt64` -/
def HardenLlm.maxInt64 : ℤ := 9223372036854775807

namespace HardenLlm.Batch

/-! ## Time -/

def microsecond : ℤ := 1000
def millisecond : ℤ := 1000000
def second : ℤ := 1000000000

/-- `t.Truncate(time.Microsecond)`, and what a `timestamptz` column keeps. -/
def micro (t : ℤ) : ℤ := t - t % microsecond

theorem micro_micro (t : ℤ) : micro (micro t) = micro t := by
  simp only [micro, microsecond]; omega

/-- The earlier of two times. -/
def minTime (a b : ℤ) : ℤ := if a < b then a else b

/-! ## Identifiers -/

/-- A lower-case hexadecimal digit. -/
def isLowerHex (c : Char) : Bool := ('0' ≤ c && c ≤ '9') || ('a' ≤ c && c ≤ 'f')

/-- **A canonical, non-nil UUID**: what `uuid.Parse` accepts and prints
back unchanged. -/
def validPermitID (id : String) : Bool :=
  id.toList.length = 36
    && id.toList.zipIdx.all (fun (c, i) => if i ∈ [8, 13, 18, 23] then c = '-' else isLowerHex c)
    && id != "00000000-0000-0000-0000-000000000000"

theorem validPermitID_ne_empty {s : String} (h : validPermitID s = true) : s ≠ "" := by
  rintro rfl
  revert h
  decide

/-- An API key hash: 64 lower-case hexadecimal digits. -/
def validScope (v : String) : Bool := v.toList.length = 64 && v.toList.all isLowerHex

/-- `unicode.IsSpace`. -/
def isSpace (c : Char) : Bool :=
  c.toNat ∈ [9, 10, 11, 12, 13, 32, 0x85, 0xA0, 0x1680, 0x2028, 0x2029, 0x202f, 0x205f, 0x3000]
    || (0x2000 ≤ c.toNat && c.toNat ≤ 0x200a)

/-- A pool name: at most 128 bytes, nothing to trim, no control separator. -/
def validPool (id : String) : Bool :=
  0 < id.utf8ByteSize && id.utf8ByteSize ≤ 128
    && !(id.toList.head?.any isSpace) && !(id.toList.getLast?.any isSpace)
    && id.toList.all (fun c => c.toNat ∉ [13, 10, 9, 0])

/-! ## Errors -/

/-- The package's error values. `invalidManifest` is the unnamed error of
`Create`. -/
inductive Err
  | notFound
  | conflict
  | unavailable
  | generationFenced
  | claimOwned
  | claimUnconfirmed
  | settlementConflict
  | legacyExecutionUnresolved
  | invalidManifest
  deriving DecidableEq, Repr

/-! ## Outcomes and observations -/

/-- The kind of an outcome; the Go field is a free string, and `other ""`
is the zero value. -/
inductive OutcomeKind
  | completed
  | failed
  | rejected
  | policy
  | unconfirmed
  | neverDispatched
  | other (s : String)
  deriving DecidableEq, Repr

/-- What an outcome says about future admission; `other ""` is silence. -/
inductive Admission
  | throttled
  | restricted
  | other (s : String)
  deriving DecidableEq, Repr

structure ItemError where
  code : String
  message : String
  httpStatus : ℤ := 0
  deriving DecidableEq, Repr

/-- **The result of one provider attempt**, without its response body. -/
structure Outcome where
  kind : OutcomeKind := .other ""
  admission : Admission := .other ""
  generationBudgetMS : ℤ := 0
  generationDeadline : Option ℤ := none
  error : Option ItemError := none
  retryAfterMS : ℤ := 0
  artifactID : String := ""
  attempt : ℤ := 0
  queueMS : ℤ := 0
  retryWaitMS : ℤ := 0
  startedAt : Option ℤ := none
  finishedAt : Option ℤ := none
  durationMS : ℤ := 0
  headersMS : Option ℤ := none
  firstOutputMS : Option ℤ := none
  inputTokens : Option ℤ := none
  outputTokens : Option ℤ := none
  reasoningTokens : Option ℤ := none
  cachedInputTokens : Option ℤ := none
  providerRequestID : String := ""
  cpaInternalAttempts : Option ℤ := none
  deriving DecidableEq, Repr

/-- **An outcome with its execution evidence**: whether the provider was
entered, and whether the invocation is known to have stopped here. -/
structure AttemptObservation where
  outcome : Outcome
  nativeEntered : Bool := false
  localStopped : Bool := false
  observedAt : ℤ
  deriving DecidableEq, Repr

/-! ## Jobs and items -/

/-- An item of a job. -/
structure Ref where
  scope : String
  jobID : String
  index : ℤ
  deriving DecidableEq, Repr

/-- The immutable request snapshot. `content` stands for the fields other
than the timeout, which no transaction reads separately. -/
structure Generation where
  content : String
  timeoutMS : ℤ
  timeoutDefaulted : Bool := false
  deriving DecidableEq, Repr

structure Item where
  customID : String
  generation : Generation
  deriving DecidableEq, Repr

inductive ItemState
  | queued
  | active
  | waiting
  | succeeded
  | failed
  deriving DecidableEq, Repr

/-- A state no transaction leaves. -/
def ItemState.terminal : ItemState → Bool
  | .succeeded | .failed => true
  | _ => false

/-- A state `SelectReady` draws from. -/
def ItemState.open : ItemState → Bool
  | .queued | .waiting => true
  | _ => false

/-- A row of `batch_items`. -/
structure ItemRow where
  ref : Ref
  customID : String
  request : Generation
  state : ItemState := .queued
  attempts : ℤ := 0
  queuedAt : ℤ
  outcome : Outcome := {}
  reservationOrdinal : ℤ := 0
  currentPermit : Option String := none
  deriving DecidableEq, Repr

/-- A row of `batch_jobs`; `poolID` is empty until a pool owns the job. -/
structure JobRow where
  scope : String
  id : String
  idempotencyHash : String
  inputDigest : String
  itemCount : ℤ
  workflowID : String
  createdAt : ℤ
  deadline : ℤ
  poolID : String := ""
  deriving DecidableEq, Repr

def JobRow.key (j : JobRow) : String × String := (j.scope, j.id)

/-- The job an item belongs to. -/
def Ref.job (r : Ref) : String × String := (r.scope, r.jobID)

/-- `LegacyGenerationBudget`, for snapshots that name no timeout. -/
def legacyGenerationBudget : ℤ := 180 * second
/-- `MaximumGenerationBudget`. -/
def maximumGenerationBudget : ℤ := 900 * second

/-- The budget of an accepted snapshot, `0` where it is out of range. -/
def generationBudget (g : Generation) : ℤ :=
  if g.timeoutMS = 0 then legacyGenerationBudget
  else if g.timeoutMS < 1 ∨ g.timeoutMS > maximumGenerationBudget / millisecond then 0
  else g.timeoutMS * millisecond

/-- `Duration.Milliseconds`. -/
def milliseconds (d : ℤ) : ℤ := d.tdiv millisecond

/-! ## Attempts -/

inductive Kind
  | job
  | ordinary
  deriving DecidableEq, Repr

/-- **What a pool grants**: capacity and ownership, never inference
input. -/
structure Reservation where
  permitID : String
  poolID : String
  generation : ℤ
  sequence : ℤ
  ref : Ref
  requestID : String := ""
  kind : Kind
  workflowID : String
  grantedAt : ℤ
  startBy : ℤ
  deadline : ℤ
  budgetMS : ℤ
  windowID : ℤ
  epoch : ℤ
  policyRevision : ℤ
  probe : Bool
  deriving DecidableEq, Repr

/-- A reservation as its row keeps it. -/
def Reservation.stored (r : Reservation) : Reservation :=
  { r with grantedAt := micro r.grantedAt, startBy := micro r.startBy, deadline := micro r.deadline }

/-- Equal at storage precision. -/
def sameReservation (a b : Reservation) : Prop := a.stored = b.stored

instance (a b : Reservation) : Decidable (sameReservation a b) :=
  inferInstanceAs (Decidable (_ = _))

inductive AttemptState
  | reserved
  | dispatching
  | settled
  deriving DecidableEq, Repr

/-- A row of `batch_attempts`. -/
structure Attempt extends Reservation where
  ordinal : ℤ
  state : AttemptState := .reserved
  claimID : String := ""
  claimedAt : Option ℤ := none
  dispatchedAt : Option ℤ := none
  generationDeadline : Option ℤ := none
  stoppedAt : Option ℤ := none
  settlementRevision : ℤ := 0
  observation : Option AttemptObservation := none
  deriving DecidableEq, Repr

/-- The generation deadline fixed at the claim, the reservation's until
then. -/
def Attempt.executionDeadline (a : Attempt) : ℤ := a.generationDeadline.getD a.deadline

/-! ## Pools and ordinary requests -/

inductive Mode
  | active
  | quiescing
  deriving DecidableEq, Repr

/-- A row of `batch_pool_generations`. -/
structure PoolGeneration where
  poolID : String
  generation : ℤ
  mode : Mode
  revision : ℤ := 1
  deriving DecidableEq, Repr

/-- A row of `batch_request_waiters`: one live ordinary dispatch. -/
structure RequestWaiter where
  requestID : String
  poolID : String
  generation : ℤ
  scope : String
  ownerID : String
  executionID : String
  ordinal : ℤ
  createdAt : ℤ
  deadline : ℤ
  budgetMS : ℤ
  liveUntil : ℤ
  closedAt : Option ℤ := none
  permitID : String := ""
  poolObservedAt : Option ℤ := none
  deriving DecidableEq, Repr

/-- **The database**: the tables the ledger's transactions read and
write. -/
structure DB where
  jobs : Table JobRow.key
  items : Table ItemRow.ref
  pools : Table PoolGeneration.poolID
  waiters : Table RequestWaiter.requestID
  attempts : Table (fun a : Attempt => a.permitID)

theorem permitID_of_get? {db : DB} {id : String} {a : Attempt}
    (h : db.attempts.get? id = some a) : a.permitID = id := by
  have hkey := Table.key_of_get? h
  exact hkey

/-- A database with the schema applied and no rows. -/
def DB.empty : DB := ⟨.empty, .empty, .empty, .empty, .empty⟩

/-- **The clock readings of one transaction**, each at its own call of
`time.Now`: in the guards, in the body, in the item update, and the
server's `now()`. -/
structure Clock where
  guard : ℤ
  now : ℤ
  item : ℤ
  tx : ℤ
  deriving DecidableEq, Repr

end HardenLlm.Batch
