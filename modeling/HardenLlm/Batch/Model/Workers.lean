import HardenLlm.Batch.Model.Callers
import HardenLlm.Batch.Model.Execution
import HardenLlm.Batch.Model.Joint
/-!
# A pool, its ledger and their workers

Invocations claim and dispatch permits, enter the provider, and return or
do not; the evidence they send reaches the ledger in any order, late,
repeatedly or never. A reconciliation writes evidence of its own, from a
row and an artifact that were read before. Beside them the pool observes
rows that were read, and every transaction that carries no evidence may
commit at any time.
-/

namespace HardenLlm.Batch

/-- **Where an invocation is with respect to the provider.** -/
inductive Flight
  | outside
  | inside (kind : Kind) (permit : String)
  | returned (permit : String) (reply : Reply)
  deriving DecidableEq, Repr

/-- The permit an invocation entered the provider with, and its kind. -/
def Flight.entered : Flight → Option (Kind × String)
  | .outside => none
  | .inside kind permit => some (kind, permit)
  | .returned permit reply => some (reply.kind, permit)

/-- The callers and their flights, the evidence and the artifacts sent so
far, and the pool with the rows it may observe. -/
structure Workers where
  callers : Callers
  flight : String → Flight
  sent : List Evidence
  artifacts : List Artifact
  run : PoolRun
  reads : List Attempt

namespace Workers

variable (s : Workers)

/-- The database. -/
abbrev db : DB := s.callers.db

/-- The pool beside its ledger. -/
def joint : Joint := ⟨s.run, s.db, s.reads⟩

/-- Another database. -/
def commits (db' : DB) : Workers := { s with callers := { s.callers with db := db' } }

/-- The invocation of `nonce` moves. -/
def flies (nonce : String) (flight : Flight) : Workers :=
  { s with flight := Function.update s.flight nonce flight }

/-- More evidence on its way. -/
def sends (evidence : List Evidence) : Workers := { s with sent := evidence ++ s.sent }

/-- **The invocation will never enter**: it gave up outside. -/
def Aborted (nonce : String) : Prop :=
  s.flight nonce = .outside ∧ s.callers.phase nonce = .gone

/-- Some invocation entered the provider with this permit. -/
def Entered (permit : String) : Prop :=
  ∃ nonce kind, (s.flight nonce).entered = some (kind, permit)

end Workers

/-- What an invocation checks, on the row its dispatch returned, before it
enters. -/
inductive Enters (a : Attempt) : Prop
  | job (item : StoredItem) {t t' u u' : ℤ} (cleared : preflight a (some item) false t t' = none)
      (inTime : a.late u u' = false)
  | ordinary {w : RequestWaiter} {t t' : ℤ} (owned : w.owns a) (inTime : a.late t t' = false)

/-- The observations of an invocation that did not enter. -/
inductive Declines : AttemptObservation → Prop
  | unsent (reason : Unsent) (now : ℤ) : Declines (neverSent reason now)
  /-- Before the provider answers, nothing is known about admission. -/
  | panicked (out : Outcome) (quiet : out.admission = .other "") (now : ℤ) :
      Declines (panickedObservation out false false now)
  /-- The cleanup of `begin`. -/
  | unbegun (now : ℤ) : Declines (neverDispatchedAt now)
  | ordinary (a : Attempt) (t : Timing) :
      Declines (ordinaryObservation a { kind := .neverDispatched } false false t)
  | ordinaryPanicked (a : Attempt) (t : Timing) :
      Declines (ordinaryObservation a ordinaryPanicked false false t)

/-- The observations of an invocation that panicked inside the provider. -/
inductive Abandons (a : Attempt) : Kind → AttemptObservation → Prop
  | job (item : StoredItem) (started deadline now : ℤ) :
      Abandons a .job (panickedObservation (enteredOutcome a item started deadline) true false now)
  | ordinary (t : Timing) :
      Abandons a .ordinary (ordinaryObservation a ordinaryPanicked true false t)

/-- The observations of an invocation whose call returned. -/
inductive Concludes (a : Attempt) : Reply → AttemptObservation → Prop
  | job {result : Result} {err : Option ExecutionError} (item : StoredItem)
      (started deadline now : ℤ) (after : Aftermath) :
      Concludes a (.job result err)
        { outcome := returnedOutcome (enteredOutcome a item started deadline) a.permitID deadline
            result err after
          nativeEntered := true, localStopped := true, observedAt := now }
  | jobPanicked {result : Result} {err : Option ExecutionError} (out : Outcome) (stopped : Bool)
      (now : ℤ) : Concludes a (.job result err) (panickedObservation out true stopped now)
  | ordinary {result : ProviderResult} {err : Option ExecutionError} (t : Timing) :
      Concludes a (.ordinary result err)
        (ordinaryObservation a (dispatchedOutcome a result err t.finished) true true t)
  | ordinaryPanicked {result : ProviderResult} {err : Option ExecutionError} (t : Timing) :
      Concludes a (.ordinary result err) (ordinaryObservation a ordinaryPanicked true true t)

/-- **What an invocation reports**, depending on where it is. -/
inductive Reports (s : Workers) (nonce : String) : String → AttemptObservation → Prop
  | declines {permit : String} {o : AttemptObservation} (aborted : s.Aborted nonce)
      (observes : Declines o) : Reports s nonce permit o
  | abandons {kind : Kind} {permit : String} {a : Attempt} {o : AttemptObservation}
      (inside : s.flight nonce = .inside kind permit) (row : s.db.attempts.get? permit = some a)
      (observes : Abandons a kind o) : Reports s nonce permit o
  | concludes {permit : String} {reply : Reply} {a : Attempt} {o : AttemptObservation}
      (returned : s.flight nonce = .returned permit reply)
      (row : s.db.attempts.get? permit = some a) (observes : Concludes a reply o) :
      Reports s nonce permit o

/-- The transaction that writes the evidence. -/
def Evidence.op : Evidence → Op
  | .stop permit nonce time => .markLocalStop permit nonce time
  | .stage permit nonce o => .stageAttempt permit nonce o
  | .settle permit nonce o => .settleAttempt permit nonce o
  | .expire permit => .expireReservation permit

/-- A transaction that says of an invocation what only it, or a
reconciliation, can know. -/
def Op.testifies : Op → Bool
  | .stageAttempt _ _ _ | .settleAttempt _ _ _ | .markLocalStop _ _ _ => true
  | _ => false

/-- **One step of a pool, its ledger or their workers.** -/
inductive WorkerStep (H : Hashes) (size : AttemptObservation → ℕ) (s : Workers) : Workers → Prop
  | act (t : ℤ) (act : PoolAct) (later : s.run.now ≤ t) (allowed : s.joint.Allows act) :
      WorkerStep H size s { s with run := s.run.act H t act }
  | read {id : String} {a : Attempt} (row : s.db.attempts.get? id = some a) :
      WorkerStep H size s { s with reads := a :: s.reads }
  /-- Anyone's transaction without evidence. -/
  | exec (op : Op) (c : Clock) {db' : DB} (offered : s.joint.Offers op)
      (plain : op.testifies = false) (exec : op.exec size c s.db = .ok db') :
      WorkerStep H size s (s.commits db')
  /-- An invocation's claim or dispatch. -/
  | call {callers' : Callers} (h : CallerStep s.callers callers') :
      WorkerStep H size s { s with callers := callers' }
  | enter {nonce permit : String} {a : Attempt}
      (dispatched : s.callers.phase nonce = .dispatched permit)
      (outside : s.flight nonce = .outside) (row : s.db.attempts.get? permit = some a)
      (checks : Enters a) : WorkerStep H size s (s.flies nonce (.inside a.kind permit))
  | return {nonce permit : String} {reply : Reply}
      (inside : s.flight nonce = .inside reply.kind permit) :
      WorkerStep H size s (s.flies nonce (.returned permit reply))
  /-- An invocation that gave up outside marks its stop, before it knows
  whether its claim took effect. -/
  | stop {nonce permit : String} (time : ℤ) (aborted : s.Aborted nonce) :
      WorkerStep H size s (s.sends [.stop permit nonce time])
  | report {nonce permit : String} {o : AttemptObservation} (reports : Reports s nonce permit o) :
      WorkerStep H size s (s.sends (evidenceOf permit nonce o))
  /-- A completed job's envelope is written, whether or not the invocation
  learns of it. -/
  | put {nonce permit : String} {result : Result} {a : Attempt} {o : AttemptObservation}
      (returned : s.flight nonce = .returned permit (.job result none))
      (row : s.db.attempts.get? permit = some a) (concludes : Concludes a (.job result none) o)
      (completed : o.outcome.kind = .completed) :
      WorkerStep H size s
        { s with artifacts := ⟨permit, a.poolID, nonce, a.ref, o⟩ :: s.artifacts }
  /-- A reconciliation that found no artifact. -/
  | reconcile {a : Attempt} {e : Evidence} (t now : ℤ) (read : a ∈ s.reads)
      (writes : reconcileAttempt a none t now = some e) : WorkerStep H size s (s.sends [e])
  /-- A reconciliation that found the permit's artifact. -/
  | recover {a : Attempt} {x : Artifact} {e : Evidence} (t now : ℤ) (read : a ∈ s.reads)
      (stored : x ∈ s.artifacts) (decodes : x.decodes size a)
      (writes : reconcileAttempt a (some x.observation) t now = some e) :
      WorkerStep H size s (s.sends [e])
  /-- Evidence reaches the ledger, any number of times. -/
  | deliver {e : Evidence} (c : Clock) {db' : DB} (sent : e ∈ s.sent)
      (exec : e.op.exec size c s.db = .ok db') : WorkerStep H size s (s.commits db')

/-- **A pool, its ledger and any number of workers**, all new. -/
def workers (H : Hashes) (size : AttemptObservation → ℕ) : System Workers where
  init s := (callers size).init s.callers ∧ (joint H size).init s.joint
    ∧ (∀ nonce, s.flight nonce = .outside) ∧ s.sent = [] ∧ s.artifacts = []
  step := WorkerStep H size

end HardenLlm.Batch
