import Mathlib.Data.Int.Notation
import Mathlib.Data.Nat.Notation
import Mathlib.Logic.Function.Basic
import HardenLlm.Common.System
import HardenLlm.Runtime.Model.Execute
/-!
# Wake hints of concurrent admissions

Every admission of a request wakes the pool's actor after its row is
committed. The calls of one instance share a flight: the first one sends
the signal, under its own context, the ones that arrive meanwhile wait for
it, and for a while after an acknowledgement no signal is sent at all. An
admission whose call returns an error fails.

A call is named by a number, and a flight by the call that leads it. What
is done under the mutex is one step, and so are the return of the signal,
the choice of a `select`, and the end of a context; they interleave freely.
-/

namespace HardenLlm.Stateful

open HardenLlm.Runtime (ContextError)

/-- **What a call of `Wake` can fail with.** -/
inductive WakeError
  /-- The context of `call` ended. -/
  | context (call : ℕ) (e : ContextError)
  /-- The signal failed, and not because of the context it was sent under. -/
  | signal (message : String)
  /-- `batch.ErrGenerationFenced` -/
  | generationFenced
  deriving DecidableEq, Repr

/-- A flight: `done` says that the channel is closed. -/
structure AdmissionWake where
  done : Bool
  err : Option WakeError
  deriving DecidableEq, Repr

/-- The fields of `admissionPoolSignals` that its mutex guards. Times are
in nanoseconds. -/
structure AdmissionPoolSignals where
  pool : String
  lastAck : Option ℤ
  flight : Option ℕ
  deriving DecidableEq, Repr

namespace AdmissionPoolSignals

/-- What `Wake` decides while it first holds the mutex. -/
inductive Entry
  | recent
  | joins (flight : ℕ)
  | fenced
  | leads (s : AdmissionPoolSignals)
  deriving DecidableEq, Repr

/-- The pool was woken less than 50 ms ago. -/
def recent (s : AdmissionPoolSignals) (pool : String) (now : ℤ) : Bool :=
  s.pool = pool && s.lastAck.any fun ack => now - ack < 50000000

/-- The first critical section of `Wake`. -/
def enter (s : AdmissionPoolSignals) (call : ℕ) (pool : String) (now : ℤ) : Entry :=
  if s.recent pool now then .recent
  else match s.flight with
    | some flight =>
      -- A configured admission instance has exactly one trusted pool identity.
      if s.pool = pool then .joins flight else .fenced
    | none => .leads { s with flight := some call, pool := pool }

/-- The second, once the signal has returned. -/
def settle (s : AdmissionPoolSignals) (err : Option WakeError) (now : ℤ) : AdmissionPoolSignals :=
  { s with
    lastAck := if err = none then some now else s.lastAck
    flight := none }

end AdmissionPoolSignals

/-- **Where a call stands.** A call that returned remembers whether its own
context had ended by then. -/
inductive WakePhase
  | idle
  | waiting (flight : ℕ)
  | signalling
  | settling (err : Option WakeError)
  | returned (err : Option WakeError) (ended : Option ContextError)
  deriving DecidableEq, Repr

/-- The instance, its flights, each call and each call's context. -/
structure Wakes where
  signals : AdmissionPoolSignals
  flights : ℕ → AdmissionWake
  phase : ℕ → WakePhase
  ended : ℕ → Option ContextError

namespace Wakes

/-- A call moves to another phase. -/
def moves (s : Wakes) (call : ℕ) (phase : WakePhase) : Wakes :=
  { s with phase := Function.update s.phase call phase }

/-- A call returns. -/
def returns (s : Wakes) (call : ℕ) (err : Option WakeError) : Wakes :=
  s.moves call (.returned err (s.ended call))

/-- `ctx.Err()` -/
def contextErr (s : Wakes) (call : ℕ) : Option WakeError := (s.ended call).map (.context call)

/-- **How the signal can answer** a call: with success, with a failure of
its own, or with the end of the context it was sent under. -/
def Answers (s : Wakes) (call : ℕ) (err : Option WakeError) : Prop :=
  err = none ∨ (∃ message, err = some (.signal message)) ∨
    ∃ e, s.ended call = some e ∧ err = some (.context call e)

end Wakes

/-- What happens next. -/
inductive WakeAction
  | ends (call : ℕ) (e : ContextError)
  | enter (call : ℕ) (now : ℤ)
  | cancel (call : ℕ)
  | receive (call : ℕ)
  | signalled (call : ℕ) (err : Option WakeError)
  | settle (call : ℕ) (now : ℤ)
  deriving DecidableEq, Repr

/-- **One step of the calls for `pool`.** -/
inductive WakeStep (pool : String) (s : Wakes) : WakeAction → Wakes → Prop
  /-- A caller goes away, or its time is up. -/
  | ends {call : ℕ} (e : ContextError) (live : s.ended call = none) :
      WakeStep pool s (.ends call e) { s with ended := Function.update s.ended call (some e) }
  | recent {call : ℕ} {now : ℤ} (idle : s.phase call = .idle)
      (entry : s.signals.enter call pool now = .recent) :
      WakeStep pool s (.enter call now) (s.returns call (s.contextErr call))
  | join {call : ℕ} {now : ℤ} {flight : ℕ} (idle : s.phase call = .idle)
      (entry : s.signals.enter call pool now = .joins flight) :
      WakeStep pool s (.enter call now) (s.moves call (.waiting flight))
  | fence {call : ℕ} {now : ℤ} (idle : s.phase call = .idle)
      (entry : s.signals.enter call pool now = .fenced) :
      WakeStep pool s (.enter call now) (s.returns call (some .generationFenced))
  | lead {call : ℕ} {now : ℤ} {signals : AdmissionPoolSignals} (idle : s.phase call = .idle)
      (entry : s.signals.enter call pool now = .leads signals) :
      WakeStep pool s (.enter call now) ({ s with
        signals := signals
        flights := Function.update s.flights call ⟨false, none⟩ }.moves call .signalling)
  /-- A waiting call's `select` sees its own context. -/
  | cancel {call flight : ℕ} (waiting : s.phase call = .waiting flight)
      (ended : s.ended call ≠ none) :
      WakeStep pool s (.cancel call) (s.returns call (s.contextErr call))
  /-- A waiting call's `select` sees the flight done. -/
  | receive {call flight : ℕ} (waiting : s.phase call = .waiting flight)
      (done : (s.flights flight).done) :
      WakeStep pool s (.receive call) (s.returns call (s.flights flight).err)
  | signalled {call : ℕ} {err : Option WakeError} (signalling : s.phase call = .signalling)
      (answers : s.Answers call err) :
      WakeStep pool s (.signalled call err) (s.moves call (.settling err))
  | settle {call : ℕ} {err : Option WakeError} {now : ℤ} (settling : s.phase call = .settling err) :
      WakeStep pool s (.settle call now) ({ s with
        signals := s.signals.settle err now
        flights := Function.update s.flights call ⟨true, err⟩ }.returns call err)

/-- Before the first call. -/
def Wakes.initial : Wakes where
  signals := ⟨"", none, none⟩
  flights := fun _ => ⟨false, none⟩
  phase := fun _ => .idle
  ended := fun _ => none

/-- **Any number of calls for the one configured pool**, whose steps all
meet a condition. -/
def wakes (pool : String) (allows : Wakes → WakeAction → Prop) : System Wakes where
  init s := s = .initial
  step s s' := ∃ a, allows s a ∧ WakeStep pool s a s'

end HardenLlm.Stateful
