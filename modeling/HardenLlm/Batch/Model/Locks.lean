import HardenLlm.Batch.Model.Store
/-!
# Transactions under pool locks

A guarded transaction reads its pool's marker `FOR SHARE` and keeps the
lock until it commits; a change of generation reads it `FOR UPDATE` and so
waits for every share lock to go. Here a guarded call takes two steps: the
guard, which remembers the markers it read, and the commit, which runs on
the database of its own moment but sees the markers of the guard's. The
other transactions lock no marker and run at any time.
-/

namespace HardenLlm.Batch

/-- **The calls that guard a pool**: a reservation, a claim, a dispatch,
and the read-backs that confirm a claim or a dispatch whose commit was not
acknowledged. -/
inductive Call
  | reserve (r : Reservation)
  | claim (id nonce : String)
  | dispatch (id nonce : String)
  | confirmClaim (id nonce : String) (written : Attempt)
  | confirmDispatch (id nonce : String) (written : Attempt)

/-- The row a call returns and the database it leaves. -/
def Call.exec (c : Clock) (db : DB) : Call → Except Err (Attempt × DB)
  | .reserve r => reserveAttempt db r c
  | .claim id nonce => claimAttempt db id nonce c
  | .dispatch id nonce => markDispatch db id nonce c
  | .confirmClaim id nonce written => do
    let a ← confirmAttemptWrite db id nonce (acceptsClaim written) c
    return (a, db)
  | .confirmDispatch id nonce written => do
    let a ← confirmAttemptWrite db id nonce (acceptsDispatch written) c
    return (a, db)

/-- The pool and generation a call guards: the reservation's own, or those
of the permit's row. -/
def Call.guards (db : DB) : Call → Option (String × ℤ)
  | .reserve r => some (r.poolID, r.generation)
  | .claim id _ | .dispatch id _ | .confirmClaim id _ _ | .confirmDispatch id _ _ =>
    (db.attempts.get? id).map fun a => (a.poolID, a.generation)

/-- The marker a transaction locks `FOR UPDATE`. -/
def Op.locks : Op → Option String
  | .quiescePool id _ => some id
  | .advancePool id _ _ => some id
  | .adoptLegacyPool pool => some pool
  | _ => none

/-- The operations that run as guarded calls. -/
def Op.guarded : Op → Bool
  | .reserveAttempt _ | .claimAttempt _ _ | .markDispatch _ _ => true
  | _ => false

/-- A call holding the share lock of its pool's marker. -/
structure Guarded where
  call : Call
  pool : String
  generation : ℤ
  /-- The markers as the guard read them. -/
  pools : Table PoolGeneration.poolID

/-- The database and the calls between their guard and their commit. -/
structure Locked where
  db : DB
  held : List Guarded

/-- **One step under locks.** -/
inductive LockStep (size : AttemptObservation → ℕ) (s : Locked) : Locked → Prop
  | guard (call : Call) {pool : String} {generation : ℤ}
      (guards : call.guards s.db = some (pool, generation))
      (admitted : guardPool s.db pool generation = .ok ()) :
      LockStep size s { s with held := ⟨call, pool, generation, s.db.pools⟩ :: s.held }
  | commit {tx : Guarded} {before after : List Guarded} (c : Clock) {a : Attempt} {db' : DB}
      (holds : s.held = before ++ tx :: after)
      (exec : tx.call.exec c { s.db with pools := tx.pools } = .ok (a, db')) :
      LockStep size s { db := { db' with pools := s.db.pools }, held := before ++ after }
  | abort {tx : Guarded} {before after : List Guarded} (holds : s.held = before ++ tx :: after) :
      LockStep size s { s with held := before ++ after }
  | free (op : Op) (c : Clock) {db' : DB} (unguarded : op.guarded = false) (unlocked : op.locks = none)
      (exec : op.exec size c s.db = .ok db') : LockStep size s { s with db := db' }
  | alone (op : Op) (c : Clock) {pool : String} {db' : DB} (locks : op.locks = some pool)
      (waits : ∀ tx ∈ s.held, tx.pool ≠ pool) (exec : op.exec size c s.db = .ok db') :
      LockStep size s { s with db := db' }

/-- **The ledger under locks**, from an empty database. -/
def locked (size : AttemptObservation → ℕ) : System Locked where
  init s := s.db = .empty ∧ s.held = []
  step := LockStep size

end HardenLlm.Batch
