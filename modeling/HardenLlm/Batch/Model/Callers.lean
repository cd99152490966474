import HardenLlm.Batch.Model.Store
/-!
# Callers and lost acknowledgements

An invocation of a permit draws a nonce of its own, claims the permit and
then marks its dispatch, one call of each. A transaction is atomic, but the
acknowledgement of its commit may be lost, and then the caller does not
know whether it took effect: it reads the row back, at most twice, and
succeeds only if the row is what it wrote. Everyone else's transactions may
commit in between, and so may a transaction of the caller's that was lost
and takes effect late. A call returns at the transaction that decides it.
-/

namespace HardenLlm.Batch

/-- **Where an invocation stands.** A confirming call remembers the row its
unacknowledged transaction wrote and how many read-backs it has left. -/
inductive CallPhase
  | idle
  | confirmingClaim (permit : String) (written : Attempt) (tries : ℕ)
  | claimed (permit : String)
  | confirmingDispatch (permit : String) (written : Attempt) (tries : ℕ)
  | dispatched (permit : String)
  | gone
  deriving DecidableEq, Repr

namespace CallPhase

/-- The claim has not returned. -/
def early : CallPhase → Prop
  | .idle | .confirmingClaim _ _ _ => True
  | _ => False

/-- The claim has returned success and the dispatch has not returned. -/
def pending (permit : String) : CallPhase → Prop
  | .claimed p | .confirmingDispatch p _ _ => p = permit
  | _ => False

end CallPhase

/-- A call that returned success. -/
inductive Success
  | claim (permit nonce : String)
  | dispatch (permit nonce : String)
  deriving DecidableEq, Repr

/-- The permit a success is for. -/
def Success.permit : Success → String
  | .claim permit _ => permit
  | .dispatch permit _ => permit

/-- The nonce it was returned to. -/
def Success.nonce : Success → String
  | .claim _ nonce => nonce
  | .dispatch _ nonce => nonce

/-- `MarkDispatch` succeeded for this permit. -/
def Success.dispatches (permit : String) : Success → Bool
  | .claim _ _ => false
  | .dispatch p _ => p = permit

/-- The database, each nonce's invocation, and every success so far. -/
structure Callers where
  db : DB
  phase : String → CallPhase
  log : List Success

namespace Callers

/-- The invocation of `nonce` moves to another phase. -/
def moves (s : Callers) (nonce : String) (phase : CallPhase) : Callers :=
  { s with phase := Function.update s.phase nonce phase }

/-- A call of `nonce` succeeds and leaves it in another phase. -/
def succeeds (s : Callers) (db : DB) (nonce : String) (phase : CallPhase) (e : Success) : Callers :=
  { db := db, phase := Function.update s.phase nonce phase, log := s.log ++ [e] }

end Callers

/-- **One step of an invocation.** -/
inductive CallerStep (s : Callers) : Callers → Prop
  /-- The claim commits and its acknowledgement arrives. -/
  | claim {nonce permit : String} {c : Clock} {a : Attempt} {db' : DB}
      (idle : s.phase nonce = .idle) (exec : claimAttempt s.db permit nonce c = .ok (a, db')) :
      CallerStep s (s.succeeds db' nonce (.claimed permit) (.claim permit nonce))
  /-- The claim's acknowledgement is lost, whether or not it took effect. -/
  | loseClaim {nonce permit : String} {c : Clock} {a : Attempt} {db' : DB} (applied : Bool)
      (idle : s.phase nonce = .idle) (exec : claimAttempt s.db permit nonce c = .ok (a, db')) :
      CallerStep s ({ s with db := if applied then db' else s.db }.moves nonce
        (.confirmingClaim permit a 2))
  /-- A read-back confirms the claim, and is itself still in time. -/
  | confirmClaim {nonce permit : String} {written a : Attempt} {tries : ℕ} {c : Clock} {later : ℤ}
      (confirming : s.phase nonce = .confirmingClaim permit written (tries + 1))
      (exec : confirmAttemptWrite s.db permit nonce (acceptsClaim written) c = .ok a)
      (inTime : later < a.startBy ∧ later < a.executionDeadline) :
      CallerStep s (s.succeeds s.db nonce (.claimed permit) (.claim permit nonce))
  /-- A read-back of the claim could not be run. -/
  | retryClaim {nonce permit : String} {written : Attempt} {tries : ℕ}
      (confirming : s.phase nonce = .confirmingClaim permit written (tries + 1)) :
      CallerStep s (s.moves nonce (.confirmingClaim permit written tries))
  /-- The dispatch commits and its acknowledgement arrives. -/
  | dispatch {nonce permit : String} {c : Clock} {a : Attempt} {db' : DB}
      (claimed : s.phase nonce = .claimed permit)
      (exec : markDispatch s.db permit nonce c = .ok (a, db')) :
      CallerStep s (s.succeeds db' nonce (.dispatched permit) (.dispatch permit nonce))
  /-- The dispatch's acknowledgement is lost. -/
  | loseDispatch {nonce permit : String} {c : Clock} {a : Attempt} {db' : DB} (applied : Bool)
      (claimed : s.phase nonce = .claimed permit)
      (exec : markDispatch s.db permit nonce c = .ok (a, db')) :
      CallerStep s ({ s with db := if applied then db' else s.db }.moves nonce
        (.confirmingDispatch permit a 2))
  /-- A read-back confirms the dispatch, and is itself still in time. -/
  | confirmDispatch {nonce permit : String} {written a : Attempt} {tries : ℕ} {c : Clock}
      {later : ℤ} (confirming : s.phase nonce = .confirmingDispatch permit written (tries + 1))
      (exec : confirmAttemptWrite s.db permit nonce (acceptsDispatch written) c = .ok a)
      (inTime : later < a.startBy ∧ later < a.executionDeadline) :
      CallerStep s (s.succeeds s.db nonce (.dispatched permit) (.dispatch permit nonce))
  /-- A read-back of the dispatch could not be run. -/
  | retryDispatch {nonce permit : String} {written : Attempt} {tries : ℕ}
      (confirming : s.phase nonce = .confirmingDispatch permit written (tries + 1)) :
      CallerStep s (s.moves nonce (.confirmingDispatch permit written tries))
  /-- A call is refused, is not confirmed, or its caller crashes. -/
  | leave (nonce : String) : CallerStep s (s.moves nonce .gone)

/-- **Any number of invocations and everyone else's transactions.** -/
def callers (size : AttemptObservation → ℕ) : System Callers where
  init s := s.db = .empty ∧ (∀ nonce, s.phase nonce = .idle) ∧ s.log = []
  step s s' := CallerStep s s'
    ∨ ∃ (op : Op) (c : Clock) (db' : DB), op.exec size c s.db = .ok db' ∧ s' = { s with db := db' }

end HardenLlm.Batch
