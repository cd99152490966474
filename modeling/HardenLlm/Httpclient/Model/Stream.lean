import HardenLlm.Common.Buffered
import HardenLlm.Httpclient.Model.Evidence
/-!
# The stream of a run

`stream.go`: frames are read from a buffer of lines, bounded each and all
together, and the frames drive a session that waits for a terminal event
and then for its recording.
-/

namespace HardenLlm.Httpclient

open Lines Buffered

def maximumResponseBytes : ℕ := 16 <<< 20
def maximumErrorBytes : ℕ := 64 <<< 10
def maximumStreamBytes : ℕ := maximumResponseBytes + maximumErrorBytes

/-- The buffer of the reader. -/
def bufferSize : ℕ := 4096

/-! ## Frames -/

structure Frame where
  kind : Bytes
  data : Bytes
  deriving DecidableEq, Repr

/-- **Reading a frame**: all bytes so far, those of the frame, its fields,
and what is read of the line. -/
structure Parse where
  bytes : ℕ := 0
  frameSize : ℕ := 0
  kind : Bytes := []
  data : Bytes := []
  line : Bytes := []
  deriving DecidableEq, Repr

namespace Parse

/-- A part of a line. -/
def feed (s : Parse) (part : Bytes) : Parse :=
  { s with
    bytes := s.bytes + part.length
    frameSize := s.frameSize + part.length
    line := s.line ++ part }

/-- Past a limit. -/
def tooLarge (s : Parse) : Bool :=
  maximumStreamBytes < s.bytes || maximumResponseBytes < s.frameSize

/-- `strings.Cut` at a colon; without one there is no value. -/
def field (text : Bytes) : Bytes × Bytes :=
  (text.takeWhile (· ≠ 58), (text.dropWhile (· ≠ 58)).tail)

/-- `strings.TrimPrefix` of a space. -/
def trimBlank : Bytes → Bytes
  | 32 :: value => value
  | value => value

/-- **The end of a line.** An empty one ends the frame, if there is data. -/
def endLine (s : Parse) : Parse ⊕ Frame :=
  let text := trimSuffix cr (trimSuffix lf s.line)
  if text = [] then
    if s.data = [] then .inl { s with kind := [], frameSize := 0, line := [] }
    else .inr ⟨s.kind, trimSuffix lf s.data⟩
  else if text.head? = some 58 then .inl { s with line := [] }
  else
    let name := (field text).1
    let value := trimBlank (field text).2
    if name = ascii "event" then .inl { s with kind := value, line := [] }
    else if name = ascii "data" then
      .inl { s with data := s.data ++ value ++ [lf], line := [] }
    else .inl { s with line := [] }

end Parse

/-- **The frames of a stream**, one call of `frame` after the other, and why
there is no further one. -/
def frames (s : Parse) : List (Bytes × Stop) → List Frame × Cause
  | [] => ([], .read)
  | (part, stop) :: rest =>
    let s := s.feed part
    if s.tooLarge then ([], .protocol)
    else match stop with
      | .full => frames s rest
      | .ended => ([], .read)
      | .found =>
        match s.endLine with
        | .inl s => frames s rest
        | .inr f =>
          let next := frames { bytes := s.bytes } rest
          (f :: next.1, next.2)

/-! ## The session -/

structure RunFailure where
  problem : RunError
  evidence : Option RunEvidence := none
  deriving DecidableEq, Repr

/-- What the client has when a call returns. Nothing is known of an outcome
without a result. -/
structure RunOutcome where
  result : Option RecordedRunOutput := none
  state : Option RunState := none
  recording : Option RecordingOutcome := none
  evidence : Option RunEvidence := none
  deriving DecidableEq

inductive ClientError
  | unknownOutcome (cause : Cause)
  | runFailure (failure : RunFailure)
  deriving DecidableEq, Repr

/-- **The variables of `readRunStream`.** -/
structure Session where
  sequence : ℕ := 0
  runID : String := ""
  callID : String := ""
  traceID : String := ""
  outcome : RunOutcome := {}
  terminalFailure : Option RunFailure := none
  terminal : Bool := false
  deriving DecidableEq

namespace Session

/-- `finish`. -/
def finish (s : Session) (cause : Cause) : RunOutcome × Option ClientError :=
  if !s.terminal then ({}, some (.unknownOutcome cause))
  else (s.outcome, s.terminalFailure.map .runFailure)

/-- The frame is an event of this run, later than those before. -/
def accepts (s : Session) (f : Frame) (e : RunEvent) : Bool :=
  !(e.type.name ≠ f.kind || e.sequence ≤ s.sequence || (s.runID ≠ "" && e.runID ≠ s.runID)
    || (s.callID ≠ "" && e.callID ≠ "" && e.callID ≠ s.callID)
    || (s.traceID ≠ "" && e.traceID ≠ "" && e.traceID ≠ s.traceID))

def advance (s : Session) (e : RunEvent) : Session :=
  { s with
    sequence := e.sequence
    runID := e.runID
    callID := if e.callID ≠ "" then e.callID else s.callID
    traceID := if e.traceID ≠ "" then e.traceID else s.traceID }

/-- The outcome carries the identity of the event. -/
def identified (e : RunEvent) (result : RecordedRunOutput) (state : RunState) : Bool :=
  !(e.runID ≠ result.runID || e.callID ≠ result.callID || e.traceID ≠ result.traceID
    || state.lastRunID ≠ result.runID || state.lastTraceID ≠ result.traceID)

variable (W : Wire) (input : RunInput)

/-- The result fits the type of its event. -/
def settle (s : Session) (e : RunEvent) (payload : Payload) (result : RecordedRunOutput) :
    Except Session Session :=
  if e.type = .completed then do
    require (result.status = .succeeded ∧ payload.error = []
      ∧ W.validateStructured input result.output = true) s
    pure s
  else do
    require (result.status ≠ .succeeded) s
    let problem ← found (W.problem payload.error) s
    pure { s with terminalFailure := some ⟨problem, none⟩ }

/-- **A terminal event**: the session goes on, or stops as it is by then. -/
def conclude (s : Session) (e : RunEvent) : Except Session Session := do
  let payload ← found (W.payload e.data) s
  let decoded ← found (W.result payload.result) s
  let s := { s with outcome.result := some decoded }
  let state ← found (W.state payload.state) s
  let result := { decoded with raw := payload.result }
  let s := { s with outcome.result := some result, outcome.state := some state }
  require (identified e result state = true) s
  let s ← s.settle W input e payload result
  match projectEvidence W result input with
  | .error _ => .error s
  | .ok evidence =>
    pure { s with
      outcome.evidence := evidence
      terminalFailure := s.terminalFailure.map fun f => { f with evidence := evidence }
      outcome.recording := some ⟨.enabled, .unconfirmed, result.runID, none⟩
      terminal := true }

/-- The event after the terminal. -/
def record (s : Session) (e : RunEvent) : Session :=
  match e.type, W.recording e.data, s.outcome.result with
  | .recorded, some recording, some result =>
    if recording.runID ≠ result.runID || e.callID ≠ result.callID || e.traceID ≠ result.traceID
    then s
    else { s with outcome.recording := some recording }
  | _, _, _ => s

/-- **The loop of `readRunStream`**, over the frames to come and why there
are no more. -/
def read (s : Session) : List Frame → Cause → RunOutcome × Option ClientError
  | [], cause => s.finish cause
  | f :: rest, cause =>
    match W.event f.data with
    | none => s.finish .protocol
    | some e =>
      if !s.accepts f e then s.finish .protocol
      else
        let s := s.advance e
        if s.terminal then (s.record W e).finish .protocol
        else match e.type with
          | .started | .progress => read s rest cause
          | .completed | .failed =>
            match s.conclude W input e with
            | .error s => s.finish .protocol
            | .ok s => read s rest cause
          | .recorded => s.finish .protocol

end Session

/-- **`readRunStream`**, on what each read of the body brings. -/
def readRunStream (W : Wire) (input : RunInput) (reads : List Bytes) :
    RunOutcome × Option ClientError :=
  let fs := frames {} (Reader.slices ⟨[], reads⟩ bufferSize lf)
  ({} : Session).read W input fs.1 fs.2

end HardenLlm.Httpclient
