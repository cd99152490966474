import Mathlib.Data.Nat.Notation
import HardenLlm.Common.System
/-!
# The stream of a reference run

`referenceRunSSE` and, of `Service.Run`, what it sends and when. The run
goes on in a goroutine of its own: it signals when it is admitted, reports
progress as long as there is room, hands over its terminal, and returns its
outcome. The handler waits for the first of these and then answers, with a
rejection or with events. A `select` may take any of its cases that is
ready, a write may fail, and the client may go at any moment.

The recorded output with its state, the outcome of the recording, the error
and the content of a progress event are arbitrary types.
-/

namespace HardenLlm.Gateway

namespace ReferenceStream

variable {ρ η ε π : Type}

structure Identity where
  runID : String
  callID : String
  traceID : String
  deriving DecidableEq, Repr

/-- What a run returns, or hands over before it is recorded. -/
structure Outcome (ρ η ε : Type) where
  identity : Identity
  output : ρ
  history : η
  err : Option ε
  deriving DecidableEq

structure ProgressEvent (π : Type) where
  identity : Identity
  content : π
  deriving DecidableEq

inductive Kind
  | progress
  | completed
  | failed
  | recorded
  deriving DecidableEq, Repr

inductive Data (ρ η ε π : Type)
  | progress (content : π)
  | terminal (output : ρ) (err : Option ε)
  | recording (history : η)
  deriving DecidableEq

/-- **An event of the stream.** -/
structure Event (ρ η ε π : Type) where
  sequence : ℕ
  kind : Kind
  identity : Identity
  data : Data ρ η ε π
  deriving DecidableEq

/-- **Where the run is**: before it is admitted, in its call, with a result
that has no identifiers yet, about to be recorded. -/
inductive Runner (ρ η ε : Type)
  | preparing
  | calling
  | finishing (o : Outcome ρ η ε)
  | recording (o : Outcome ρ η ε)
  | returned

/-- **Where the handler is**: at its first `select`, in its loop, before a
terminal (the last thing but the recording, or not), before the recording. -/
inductive Handler (ρ η ε : Type)
  | admitting
  | streaming
  | draining (o : Outcome ρ η ε) (last : Bool)
  | closing (o : Outcome ρ η ε)
  | done

/-- **The run and its channels.** `admitted` and `result` remember that it
signalled and what it returned. -/
structure Channels (ρ η ε π : Type) where
  runner : Runner ρ η ε := .preparing
  ready : Bool := false
  progress : List (ProgressEvent π) := []
  terminal : Option (Outcome ρ η ε) := none
  outcomes : Option (Outcome ρ η ε) := none
  admitted : Bool := false
  result : Option (Outcome ρ η ε) := none

/-- **The run, the handler and its answer.** `gone` says that the client
went, `broken` that a write failed. -/
structure State (ρ η ε π : Type) where
  run : Channels ρ η ε π := {}
  handler : Handler ρ η ε := .admitting
  sequence : ℕ := 0
  terminalWritten : Bool := false
  opened : Bool := false
  rejected : Option (Outcome ρ η ε) := none
  log : List (Event ρ η ε π) := []
  gone : Bool := false
  broken : Bool := false

/-- The capacity of the channel of progress events. -/
def progressCapacity : ℕ := 64

namespace State

variable (s : State ρ η ε π)

/-- `write`: an event goes out, or the handler gives up. -/
def write (kind : Kind) (identity : Identity) (data : Data ρ η ε π) (ok : Bool)
    (next : Handler ρ η ε) : State ρ η ε π :=
  let s := { s with sequence := s.sequence + 1 }
  if ok then { s with log := s.log ++ [⟨s.sequence, kind, identity, data⟩], handler := next }
  else { s with broken := true, handler := .done }

/-- A progress event, which is dropped after the terminal. -/
def writeProgress (e : ProgressEvent π) (ok : Bool) (next : Handler ρ η ε) : State ρ η ε π :=
  if s.terminalWritten then { s with handler := next }
  else s.write .progress e.identity (.progress e.content) ok next

/-- `writeTerminal`. -/
def writeTerminal (o : Outcome ρ η ε) (ok : Bool) (next : Handler ρ η ε) : State ρ η ε π :=
  if s.terminalWritten then { s with handler := next }
  else { s with terminalWritten := true }.write
    (if o.err.isSome then .failed else .completed) o.identity (.terminal o.output o.err) ok next

/-- The headers, flushed. -/
def openStream (ok : Bool) (next : Handler ρ η ε) : State ρ η ε π :=
  if ok then { s with opened := true, handler := next }
  else { s with opened := true, broken := true, handler := .done }

end State

/-- The run returns. -/
def Channels.returns (c : Channels ρ η ε π) (o : Outcome ρ η ε) : Channels ρ η ε π :=
  { c with runner := .returned, outcomes := some o, result := some o }

/-- **One step of the run.** -/
inductive RunStep (c : Channels ρ η ε π) : Channels ρ η ε π → Prop
  /-- The scope, the context or the identifier of the run fail. -/
  | refuse (o : Outcome ρ η ε) (phase : c.runner = .preparing) (err : o.err.isSome) :
      RunStep c (c.returns o)
  /-- The input or its resolution fail. -/
  | unresolved (o : Outcome ρ η ε) (phase : c.runner = .preparing) (err : o.err.isSome) :
      RunStep c { c with runner := .finishing o }
  | signal (phase : c.runner = .preparing) :
      RunStep c { c with runner := .calling, ready := true, admitted := true }
  /-- Progress is reported if there is room. -/
  | report (e : ProgressEvent π) (phase : c.runner = .calling) :
      RunStep c { c with
        progress := if c.progress.length < progressCapacity then c.progress ++ [e]
          else c.progress }
  | conclude (o : Outcome ρ η ε) (phase : c.runner = .calling) :
      RunStep c { c with runner := .finishing o }
  /-- The identifiers of the call fail. -/
  | unidentified {o : Outcome ρ η ε} (o' : Outcome ρ η ε) (phase : c.runner = .finishing o)
      (err : o'.err.isSome) : RunStep c (c.returns o')
  /-- `Completed`. -/
  | complete {o : Outcome ρ η ε} (phase : c.runner = .finishing o) :
      RunStep c { c with runner := .recording o, terminal := some o }
  | record {o : Outcome ρ η ε} (history : η) (phase : c.runner = .recording o) :
      RunStep c (c.returns { o with history := history })

/-- **One step of all.** `first` is what holds whenever the first `select`
takes a case. -/
inductive Step (first : State ρ η ε π → Prop) (s : State ρ η ε π) : State ρ η ε π → Prop
  | run {c : Channels ρ η ε π} (step : RunStep s.run c) : Step first s { s with run := c }
  | disconnect : Step first s { s with gone := true }
  | proceed (ok : Bool) (cond : first s) (phase : s.handler = .admitting)
      (received : s.run.ready = true) :
      Step first s ({ s with run.ready := false }.openStream ok .streaming)
  | reject {o : Outcome ρ η ε} (cond : first s) (phase : s.handler = .admitting)
      (received : s.run.outcomes = some o) (err : o.err.isSome) :
      Step first s { s with run.outcomes := none, rejected := some o, handler := .done }
  | pend {o : Outcome ρ η ε} (ok : Bool) (cond : first s) (phase : s.handler = .admitting)
      (received : s.run.outcomes = some o) (err : o.err = none) :
      Step first s ({ s with run.outcomes := none }.openStream ok (.draining o true))
  | leave (phase : s.handler = .admitting ∨ s.handler = .streaming) (gone : s.gone = true) :
      Step first s { s with handler := .done }
  | event {e : ProgressEvent π} {rest : List (ProgressEvent π)} (ok : Bool)
      (phase : s.handler = .streaming) (received : s.run.progress = e :: rest) :
      Step first s ({ s with run.progress := rest }.writeProgress e ok .streaming)
  | terminal {o : Outcome ρ η ε} (phase : s.handler = .streaming)
      (received : s.run.terminal = some o) :
      Step first s { s with run.terminal := none, handler := .draining o false }
  | outcome {o : Outcome ρ η ε} (phase : s.handler = .streaming)
      (received : s.run.outcomes = some o) :
      Step first s { s with run.outcomes := none, handler := .draining o true }
  | drain {o : Outcome ρ η ε} {last : Bool} {e : ProgressEvent π} {rest : List (ProgressEvent π)}
      (ok : Bool) (phase : s.handler = .draining o last) (received : s.run.progress = e :: rest) :
      Step first s ({ s with run.progress := rest }.writeProgress e ok (.draining o last))
  | drained {o : Outcome ρ η ε} {last : Bool} (ok : Bool) (phase : s.handler = .draining o last)
      (empty : s.run.progress = []) :
      Step first s (s.writeTerminal o ok (if last then .closing o else .streaming))
  | close {o : Outcome ρ η ε} (ok : Bool) (phase : s.handler = .closing o) :
      Step first s (s.write .recorded o.identity (.recording o.history) ok .done)

/-- **A run and its handler**, from the request on. -/
def system (first : State ρ η ε π → Prop) : System (State ρ η ε π) where
  init s := s = {}
  step := Step first

end ReferenceStream

end HardenLlm.Gateway
