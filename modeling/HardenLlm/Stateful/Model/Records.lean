import HardenLlm.Stateful.Model.Profiles
/-!
# Drafts, cached results, history and tracked requests

`draft.go`, `cache.go`, `history.go`, `history_queries.go` and
`request_tracking_store.go`: the other tables of a scope. Expired rows are
deleted in bounded batches, history is read in pages and windows, and
updates are fenced by revisions.
-/

namespace HardenLlm.Stateful

open Bindings
open HardenLlm.Client (CacheRecord)
open HardenLlm.Runtime (trimSpace Ledger Accounting Amounts addUsage addCost emptyLedger)
open HardenLlm.Gateway (TrackingRecord validTrackingID)

variable {A : Type} (d : Deployment A)

/-- The first rows in an order. -/
def firstRows {α : Type} (le : α → α → Prop) [DecidableRel le] (limit : ℕ) (rows : List α) : List α :=
  (rows.insertionSort le).take limit

/-! ## Drafts -/

def draftLifetime : ℤ := 7 * 24 * 3600 * Batch.second

def maxSnapshotBytes : ℕ := 256 * 1024

def validateDraftKey (key : String) : Except Failure Unit :=
  require (key ≠ "" ∧ trimSpace key = key ∧ key.utf8ByteSize ≤ 128
      ∧ key.toList.all (fun c => c.toNat ≠ 0 && c ≠ '\r' && c ≠ '\n') = true)
    (.operation "draft_invalid" "Draft key must contain 1 to 128 UTF-8 bytes.")

def isObject : Json → Bool
  | .obj _ => true
  | _ => false

def validateDraft (input : SaveDraftInput) : Except Failure Unit := do
  require (0 ≤ input.revision ∧ input.payload.encode.utf8ByteSize ≤ maxSnapshotBytes)
    (.operation "draft_invalid"
      "Draft revision must be nonnegative and payload at most 256 KiB.")
  require (isObject input.payload = true ∧ d.unsafePersistedField input.payload = false)
    (.operation "draft_invalid"
      "Draft must be an object without scope selectors, credentials or results.")

/-- `GetDraft`. -/
def getDraft (hash key : String) (now : ℤ) : Action Draft := do
  .lift (checkScope hash)
  .lift (validateDraftKey key)
  stored do
    let rows : List DraftRow ← schema.selectFrom .drafts
      fun (r : DraftRow) => r.hash = hash && r.draftKey = key && now < r.expiresAt
    match rows.head? with
    | none => return { draftKey := key }
    | some r => return { draftKey := key, revision := r.revision, payload := r.payload }

/-- The expired drafts that one save cleans up. -/
def expiredDrafts (hash : String) (now : ℤ) : Action (List String) := do
  let rows : List DraftRow ← schema.selectFrom .drafts
    fun (r : DraftRow) => r.hash = hash && r.expiresAt ≤ now
  return (firstRows (fun (a b : DraftRow) => a.expiresAt < b.expiresAt
    ∨ (a.expiresAt = b.expiresAt ∧ a.draftKey ≤ b.draftKey)) 100 rows).map (·.draftKey)

/-- `DO UPDATE SET revision=CASE …, payload, updated_at, expires_at`. -/
def overwriteDraft (fresh : DraftRow) : Table.Assignment (schema.key .drafts) where
  val := fun (r : DraftRow) =>
    { r with
      revision := if r.expiresAt ≤ fresh.updatedAt then 1 else r.revision + 1
      payload := fresh.payload
      updatedAt := fresh.updatedAt
      expiresAt := fresh.expiresAt }
  property := fun _ => rfl

/-- `revisionConflictTx`, of a draft. -/
def draftConflictTx (hash key : String) (now : ℤ) : Action Draft := do
  let rows : List DraftRow ← schema.selectFrom .drafts
    fun (r : DraftRow) => r.hash = hash && r.draftKey = key && now < r.expiresAt
  .lift (.error (revisionConflict ((rows.head?.map (·.revision)).getD 0)))

/-- The upsert of `SaveDraft`: the row may be inserted when no revision is
expected or the expected one is there, and overwritten when the stored one
has expired or is the expected one. -/
def upsertDraftTx (hash key : String) (input : SaveDraftInput) (now : ℤ) : Action (Option ℤ) := do
  let fresh : DraftRow := ⟨hash, key, input.revision + 1, input.payload, now, now + draftLifetime⟩
  let current : List DraftRow ← schema.selectFrom .drafts
    fun (r : DraftRow) => r.hash = hash && r.draftKey = key && r.revision = input.revision
      && now < r.expiresAt
  if input.revision = 0 ∨ current ≠ [] then
    .ensure (d.check .drafts fresh = true) (.plain "check constraint")
    let added ← schema.insertInto .drafts fresh
    if added then return some fresh.revision
    else do
      let affected ← schema.updateIn .drafts
        (fun (r : DraftRow) => r.hash = hash && r.draftKey = key
          && ((input.revision = 0 && r.expiresAt ≤ now)
            || (0 < input.revision && r.revision = input.revision && now < r.expiresAt)))
        (overwriteDraft fresh)
      let rows : List DraftRow ← schema.selectFrom .drafts
        fun (r : DraftRow) => r.hash = hash && r.draftKey = key
      return if affected = 0 then none else rows.head?.map (·.revision)
  else return none

/-- **`SaveDraft`.** -/
def saveDraft (hash key : String) (input : SaveDraftInput) (now : ℤ) : Action Draft := do
  .lift (checkScope hash)
  .lift (validateDraftKey key)
  .lift (validateDraft d input)
  stored do
    let expired ← expiredDrafts hash now
    let _ ← schema.deleteFrom .drafts
      fun (r : DraftRow) => r.hash = hash && r.draftKey ∈ expired
    let saved ← upsertDraftTx d hash key input now
    match saved with
    | some revision => return { draftKey := key, revision := revision, payload := input.payload }
    | none => draftConflictTx hash key now

/-! ## Cached results -/

/-- `PostgresCache.Get`. -/
def cacheGet (hash ns key : String) (now : ℤ) : Action (Option CacheRecord) :=
  Op.mapError storageFailure do
    let rows : List CacheRow ← schema.selectFrom .cacheEntries
      fun (r : CacheRow) => r.hash = hash && r.namespace = ns && r.operationHash = key
        && now < r.expiresAt
    return rows.head?.map (·.record)

/-- The expired entries that one write cleans up. -/
def expiredEntries (hash : String) (now : ℤ) : Action (List (String × String)) := do
  let rows : List CacheRow ← schema.selectFrom .cacheEntries
    fun (r : CacheRow) => r.hash = hash && r.expiresAt ≤ now
  return (firstRows (fun (a b : CacheRow) => a.expiresAt < b.expiresAt
    ∨ (a.expiresAt = b.expiresAt
      ∧ toLex (a.namespace, a.operationHash) ≤ toLex (b.namespace, b.operationHash))) 100 rows).map
    fun r => (r.namespace, r.operationHash)

/-- `DO UPDATE SET record, expires_at`. -/
def overwriteEntry (fresh : CacheRow) : Table.Assignment (schema.key .cacheEntries) where
  val := fun (r : CacheRow) => { r with record := fresh.record, expiresAt := fresh.expiresAt }
  property := fun _ => rfl

/-- **`PostgresCache.Set`.** -/
def cacheSet (hash ns key : String) (record : CacheRecord) (now : ℤ) : Action Unit :=
  stored do
    let expired ← expiredEntries hash now
    let _ ← schema.deleteFrom .cacheEntries
      fun (r : CacheRow) => r.hash = hash && (r.namespace, r.operationHash) ∈ expired
    let fresh : CacheRow := ⟨hash, ns, key, record, now + d.cacheTTL⟩
    .ensure (d.check .cacheEntries fresh = true) (.plain "check constraint")
    let added ← schema.insertInto .cacheEntries fresh
    if added then pure ()
    else do
      let _ ← schema.updateIn .cacheEntries
        (fun (r : CacheRow) => r.hash = hash && r.namespace = ns && r.operationHash = key)
        (overwriteEntry fresh)
      pure ()

/-- `PostgresCache.Delete`. -/
def cacheDelete (hash ns key : String) : Action Unit :=
  stored do
    let _ ← schema.deleteFrom .cacheEntries
      fun (r : CacheRow) => r.hash = hash && r.namespace = ns && r.operationHash = key
    pure ()

/-! ## History -/

def historyRecordInvalid : Failure :=
  .operation "history_record_invalid" "Stored history schema or complete payload is invalid."

def historyNotFound : Failure :=
  .operation "history_not_found" "History entry was not found for this access key."

/-- `historyReadReady`. -/
def historyReadReady (hash : String) : Except Failure Unit := do
  checkScope hash
  require (d.historyEnabled = true)
    (.operation "history_configuration_error" "Reference history is disabled.")

/-- A time as the database stores it. -/
def toMicroseconds (t : ℤ) : ℤ := t / 1000 * 1000

/-- `insertHistory`: the record is checked, cut to the precision of the
database, and inserted. -/
def insertHistory (hash : String) (r : HistoryRecord) : Action Unit := do
  .lift (checkScope hash)
  let ledger ← .lift (d.validatedHistoryAccounting r)
  let started := toMicroseconds r.startedAt
  let finished := toMicroseconds r.finishedAt
  let summary := { r.summary with startedAt := started, finishedAt := finished }
  .atomically (insertRow d .history
    (⟨hash, r.runID, r.schemaVersion, r.status, started, finished,
      d.encodeSummary ⟨summary, ledger, r.error⟩, r.request, r.result⟩ : HistoryRow))

/-- The stored row as a record. -/
def historyRecord (r : HistoryRow) : Except Failure HistoryRecord := do
  let stored ← found (d.decodeSummary r.summary) historyRecordInvalid
  let record : HistoryRecord :=
    ⟨r.schemaVersion, r.runID, r.status, r.startedAt, r.finishedAt, stored.summary, r.request,
      r.result, stored.error⟩
  match d.validatedHistoryAccounting record with
  | .ok _ => .ok record
  | .error _ => .error historyRecordInvalid

/-- `GetHistory`. -/
def getHistory (hash id : String) : Action HistoryRecord := do
  .lift (historyReadReady d hash)
  .ensure (d.parseUUID id = true) historyNotFound
  let rows : List HistoryRow ← schema.selectFrom .history
    fun (r : HistoryRow) => r.hash = hash && r.runID = id
  match rows.head? with
  | none => .lift (.error historyNotFound)
  | some r => .lift (historyRecord d r)

/-- A query with its defaults. -/
structure Window where
  «from» : Option ℤ
  before : ℤ
  page : ℤ
  pageSize : ℤ

/-- `normalizeHistoryQuery`. -/
def normalizeHistoryQuery (q : HistoryQuery) (now : ℤ) : Except Failure Window := do
  let page := if q.page = 0 then 1 else q.page
  let pageSize := if q.pageSize = 0 then 25 else q.pageSize
  let before := q.before.getD now
  require (1 ≤ page ∧ pageSize ∈ ([10, 25, 50, 100] : List ℤ) ∧ page - 1 ≤ 9223372036854775807 / pageSize)
    (.operation "history_query_invalid"
      "Use a positive page and a page size of 10, 25, 50 or 100 without an overflowing offset.")
  require (q.from.all (· < before))
    (.operation "history_query_invalid" "History window start must precede its cutoff.")
  return ⟨q.from, before, page, pageSize⟩

/-- `historyFilter`: the only predicate on key and window. -/
def historyFilter (hash : String) (w : Window) (r : HistoryRow) : Bool :=
  r.hash = hash && r.startedAt < w.before && w.from.all (· ≤ r.startedAt)

/-- The summaries of rows, or an error at the first that cannot be
read. -/
def summaries : List HistoryRow → Except Failure (List (StoredHistorySummary A))
  | [] => .ok []
  | r :: rest => do
    let summary ← found (d.decodeSummary r.summary) historyRecordInvalid
    return summary :: (← summaries rest)

structure HistoryPage where
  items : List HistorySummary
  page : ℤ
  pageSize : ℤ
  totalCount : ℕ
  window : Option ℤ × ℤ

/-- `ORDER BY started_at DESC, run_id DESC LIMIT … OFFSET …`. -/
def pageRows (w : Window) (rows : List HistoryRow) : List HistoryRow :=
  ((rows.insertionSort fun a b => b.startedAt < a.startedAt
    ∨ (b.startedAt = a.startedAt ∧ b.runID ≤ a.runID)).drop
      ((w.page - 1) * w.pageSize).toNat).take w.pageSize.toNat

/-- **`ListHistory`.** -/
def listHistory (hash : String) (q : HistoryQuery) (now : ℤ) : Action HistoryPage := do
  .lift (historyReadReady d hash)
  let w ← .lift (normalizeHistoryQuery q now)
  let rows : List HistoryRow ← schema.selectFrom .history (historyFilter hash w)
  let items ← .lift (summaries d (pageRows w rows))
  return ⟨items.map (·.summary), w.page, w.pageSize, rows.length, (w.from, w.before)⟩

/-- `SELECT count(*) … WHERE api_key_hash=$1`. -/
def historyCount (hash : String) : Action ℕ := do
  .lift (historyReadReady d hash)
  let rows : List HistoryRow ← schema.selectFrom .history fun (r : HistoryRow) => r.hash = hash
  return rows.length

/-- `historyUsage`: the rows of the scope, and the size of the table. -/
def historyUsage (tableBytes : Table (schema.key .history) → ℤ) (hash : String) :
    Action (ℕ × ℤ) := do
  let rows ← historyCount d hash
  let size ← .reads fun db => tableBytes (db .history)
  return (rows, size)

structure Statistics (A : Type) where
  window : Option ℤ × ℤ
  totalCount : ℤ := 0
  succeeded : ℤ := 0
  failed : ℤ := 0
  timeout : ℤ := 0
  cacheServed : ℤ := 0
  accounting : Accounting A

section Ledgers

variable [Amounts A]

def addLedger (left right : Ledger A) : Option (Ledger A) := do
  let usage ← addUsage left.usage right.usage
  let cost ← addCost left.cost right.cost
  return ⟨usage, cost⟩

/-- One summary is counted. -/
def Statistics.add (s : Statistics A) (e : StoredHistorySummary A) :
    Except Failure (Statistics A) := do
  let s := { s with totalCount := s.totalCount + 1 }
  let s ← match e.summary.status with
    | "succeeded" => .ok { s with succeeded := s.succeeded + 1 }
    | "failed" => .ok { s with failed := s.failed + 1 }
    | "timeout" => .ok { s with timeout := s.timeout + 1 }
    | _ => .error historyRecordInvalid
  let s := if e.summary.cacheServed then { s with cacheServed := s.cacheServed + 1 } else s
  let result ← found (addLedger s.accounting.result e.accounting.result) historyRecordInvalid
  let provider ← found (addLedger s.accounting.provider e.accounting.provider) historyRecordInvalid
  return { s with accounting := ⟨result, provider⟩ }

/-- The rows of a window, counted one after the other. -/
def Statistics.addRows (s : Statistics A) : List HistoryRow → Except Failure (Statistics A)
  | [] => .ok s
  | r :: rest => do
    let summary ← found (d.decodeSummary r.summary) historyRecordInvalid
    (← s.add summary).addRows rest

/-- **`Statistics`.** No order is asked for. -/
def statistics (hash : String) (q : HistoryQuery) (now : ℤ) : Action (Statistics A) := do
  .lift (historyReadReady d hash)
  let w ← .lift (normalizeHistoryQuery q now)
  let rows : List HistoryRow ← schema.selectFrom .history (historyFilter hash w)
  let empty : Statistics A := { window := (w.from, w.before), accounting := ⟨emptyLedger, emptyLedger⟩ }
  .lift (empty.addRows d (d.scan rows))

end Ledgers

/-- `deleteHistoryRun`; `artifacts` is what deleting the artifacts of the
run returned. -/
def deleteHistoryRun (artifacts : String → Except Failure Unit) (hash id : String) : Action Unit := do
  .lift (artifacts id)
  stored do
    let _ ← schema.deleteFrom .history fun (r : HistoryRow) => r.hash = hash && r.runID = id
    pure ()

/-- **`DeleteHistory`.** -/
def deleteHistory (artifacts : String → Except Failure Unit) (hash id : String) : Action Unit := do
  let _ ← getHistory d hash id
  deleteHistoryRun artifacts hash id

/-- The next runs that a clear deletes. -/
def nextBatch (hash : String) (w : Window) : Action (List String) := do
  let rows : List HistoryRow ← schema.selectFrom .history (historyFilter hash w)
  return (firstRows (fun (a b : HistoryRow) => a.startedAt < b.startedAt
    ∨ (a.startedAt = b.startedAt ∧ a.runID ≤ b.runID)) 100 rows).map (·.runID)

/-- What a clear did: whether it came to an end, what it deleted, and the
run that it failed at. -/
structure ClearResult where
  deleted : ℕ := 0
  cutoff : ℤ
  complete : Bool := false
  failed : Option (String × Failure) := none

/-- The runs of a batch, deleted one after the other. -/
def clearBatch (artifacts : String → Except Failure Unit) (hash : String) (result : ClearResult) :
    List String → Action ClearResult
  | [] => return result
  | id :: rest => do
    let outcome ← (deleteHistoryRun artifacts hash id).attempt
    match outcome with
    | .ok _ => clearBatch artifacts hash { result with deleted := result.deleted + 1 } rest
    | .error e => return { result with failed := some (id, e) }

/-- The batches of a clear, until one is empty or a run fails. -/
def clearBatches (artifacts : String → Except Failure Unit) (hash : String) (w : Window) :
    ℕ → ClearResult → Action ClearResult
  | 0, result => return result
  | fuel + 1, result => do
    let ids ← nextBatch hash w
    if ids = [] then return { result with complete := true }
    else do
      let result ← clearBatch artifacts hash result ids
      if result.failed.isSome then return result
      else clearBatches artifacts hash w fuel result

/-- **`ClearHistory`.** Every batch takes rows of the window away, so there
are at most as many as rows. -/
def clearHistory (artifacts : String → Except Failure Unit) (hash : String) (q : HistoryQuery)
    (now : ℤ) : Action ClearResult := do
  .lift (historyReadReady d hash)
  let w ← .lift (normalizeHistoryQuery q now)
  let rows : List HistoryRow ← schema.selectFrom .history (historyFilter hash w)
  clearBatches artifacts hash w (rows.length + 1) { cutoff := w.before }

/-! ## Tracked requests -/

def errTrackingConflict : Failure := .plain "request tracking ID already retained"

def errTrackingNotFound : Failure := .plain "request tracking ID not found"

def errTrackingUnavailable : Failure := .plain "request tracking storage unavailable"

/-- The retained record of a request. -/
def retained (hash id : String) (now : ℤ) : Action (Option TrackingRecord) := do
  let rows : List TrackingRow ← schema.selectFrom .requestTracking
    fun (r : TrackingRow) => r.hash = hash && r.record.id = id && now < r.record.retentionExpiresAt
  return rows.head?.map (·.record)

/-- The expired records that one reservation cleans up. -/
def expiredTracking (hash : String) (now : ℤ) : Action (List String) := do
  let rows : List TrackingRow ← schema.selectFrom .requestTracking
    fun (r : TrackingRow) => r.hash = hash && r.record.retentionExpiresAt ≤ now
  return (firstRows (fun (a b : TrackingRow) =>
    a.record.retentionExpiresAt < b.record.retentionExpiresAt
      ∨ (a.record.retentionExpiresAt = b.record.retentionExpiresAt ∧ a.record.id ≤ b.record.id))
    99 rows).map (·.record.id)

/-- What a reservation inserts of a record. -/
def reservation (r : TrackingRecord) : TrackingRecord where
  id := r.id
  endpoint := r.endpoint
  status := .running
  stage := some .preparing
  createdAt := r.createdAt
  deadlineAt := r.deadlineAt
  retentionExpiresAt := r.retentionExpiresAt
  updatedAt := r.createdAt
  lastWorkerHeartbeatAt := r.createdAt
  ownerID := r.ownerID

/-- A failure of a statement, seen from outside. -/
def trackingFailure : Failure → Failure := fun e =>
  if e = errTrackingConflict ∨ e = errTrackingNotFound then e else errTrackingUnavailable

/-- **`ReserveTracking`.** Times are compared and kept in nanoseconds, where
the database has microseconds. -/
def reserveTracking (hash : String) (r : TrackingRecord) (now : ℤ) : Action Unit := do
  .ensure (validKeyHash hash = true ∧ validTrackingID r.id = true ∧ validTrackingID r.ownerID = true
    ∧ r.revision = 1 ∧ r.status = .running ∧ r.finishedAt = none) errTrackingUnavailable
  Op.mapError trackingFailure (.atomically do
    let _ ← schema.deleteFrom .requestTracking
      fun (t : TrackingRow) => t.hash = hash && t.record.id = r.id
        && t.record.retentionExpiresAt ≤ now
    let expired ← expiredTracking hash now
    let _ ← schema.deleteFrom .requestTracking
      fun (t : TrackingRow) => t.hash = hash && t.record.id ∈ expired
    let row : TrackingRow := ⟨hash, reservation r⟩
    .ensure (d.check .requestTracking row = true) (.plain "check constraint")
    let added ← schema.insertInto .requestTracking row
    .ensure (added = true) errTrackingConflict)

/-- The columns that an update sets. -/
def advanceTracking (r : TrackingRecord) : Table.Assignment (schema.key .requestTracking) where
  val := fun (t : TrackingRow) =>
    { t with record := { r with
        id := t.record.id
        endpoint := t.record.endpoint
        createdAt := t.record.createdAt
        deadlineAt := t.record.deadlineAt
        retentionExpiresAt := t.record.retentionExpiresAt
        ownerID := t.record.ownerID } }
  property := fun _ => rfl

/-- `sameTrackingSnapshot`, with times as they are stored. -/
def sameTrackingSnapshot (a b : TrackingRecord) : Bool :=
  let stamp (r : TrackingRecord) : TrackingRecord :=
    { r with
      createdAt := toMicroseconds r.createdAt
      deadlineAt := toMicroseconds r.deadlineAt
      retentionExpiresAt := toMicroseconds r.retentionExpiresAt
      updatedAt := toMicroseconds r.updatedAt
      lastWorkerHeartbeatAt := toMicroseconds r.lastWorkerHeartbeatAt
      lastProgressAt := r.lastProgressAt.map toMicroseconds
      finishedAt := r.finishedAt.map toMicroseconds
      nextAttemptAt := r.nextAttemptAt.map toMicroseconds }
  stamp a = stamp b

/-- **`UpdateTracking`**: stale revisions, other owners and finished
records are fenced off. Times are in nanoseconds, as in `reserveTracking`. -/
def updateTracking (hash : String) (r : TrackingRecord) (now : ℤ) : Action Unit := do
  .ensure (validKeyHash hash = true ∧ validTrackingID r.id = true ∧ validTrackingID r.ownerID = true)
    errTrackingUnavailable
  Op.mapError trackingFailure (.atomically do
    let open' : TrackingRow → Bool := fun t => t.hash = hash && t.record.id = r.id
      && t.record.ownerID = r.ownerID && t.record.revision < r.revision
      && t.record.finishedAt.isNone && now < t.record.retentionExpiresAt
    let rows : List TrackingRow ← schema.selectFrom .requestTracking open'
    .ensure (rows.all (fun t => d.check .requestTracking ((advanceTracking r).1 t)) = true)
      (.plain "check constraint")
    let affected ← schema.updateIn .requestTracking open' (advanceTracking r)
    if affected ≠ 0 then pure ()
    else do
      let saved ← retained hash r.id now
      match saved with
      | none => .lift (.error errTrackingNotFound)
      | some saved =>
        .ensure (saved.ownerID = r.ownerID ∧ r.revision ≤ saved.revision
            ∧ (saved.revision = r.revision → sameTrackingSnapshot saved r = true))
          errTrackingNotFound)

/-- `LookupTracking`. -/
def lookupTracking (hash id : String) (now : ℤ) : Action TrackingRecord := do
  .ensure (validKeyHash hash = true ∧ validTrackingID id = true) errTrackingUnavailable
  let saved ← retained hash id now
  match saved with
  | none => .lift (.error errTrackingNotFound)
  | some r => return r

end HardenLlm.Stateful
