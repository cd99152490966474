import HardenLlm.Common.Bindings
import HardenLlm.Common.Buffered
import HardenLlm.Common.Json
import HardenLlm.Common.Lines
/-!
# Collecting a Responses stream

`collectResponsesEventStreamReaderContextWithProgress`, which reads a
stream in slices of lines and stops at the first event that decides, and
`collectResponsesEventStream`, which splits a whole body into blocks. The
reader's contexts are live and its diagnostics are left out: neither makes
a difference to what is collected.
-/

namespace HardenLlm.Providers

open Lines

/-! ## White space -/

def asciiSpace (c : UInt8) : Bool := (9 ≤ c && c ≤ 13) || c = 32

/-- The last byte of a white space that begins with `E2 80`. -/
def generalSpace (c : UInt8) : Bool := (0x80 ≤ c && c ≤ 0x8A) || c ∈ [0xA8, 0xA9, 0xAF]

/-- The white space a text begins with: the length of its encoding, `0` for
none. -/
def spaceAt : Bytes → ℕ
  | [] => 0
  | c :: t =>
    if asciiSpace c then 1
    else match c, t with
      | 0xC2, 0x85 :: _ | 0xC2, 0xA0 :: _ => 2
      | 0xE1, 0x9A :: 0x80 :: _ | 0xE2, 0x81 :: 0x9F :: _ | 0xE3, 0x80 :: 0x80 :: _ => 3
      | 0xE2, 0x80 :: d :: _ => if generalSpace d then 3 else 0
      | _, _ => 0

/-- The same of a text read from its end. -/
def spaceBefore : Bytes → ℕ
  | [] => 0
  | c :: t =>
    if asciiSpace c then 1
    else match c, t with
      | 0x85, 0xC2 :: _ | 0xA0, 0xC2 :: _ => 2
      | 0x80, 0x9A :: 0xE1 :: _ | 0x9F, 0x81 :: 0xE2 :: _ | 0x80, 0x80 :: 0xE3 :: _ => 3
      | d, 0x80 :: 0xE2 :: _ => if generalSpace d then 3 else 0
      | _, _ => 0

/-- What `space` finds at the start, dropped as long as there is some. -/
def dropSpace (space : Bytes → ℕ) : ℕ → Bytes → Bytes
  | 0, t => t
  | n + 1, t => match space t with
    | 0 => t
    | k + 1 => dropSpace space n (t.drop (k + 1))

/-- `strings.TrimSpace`. -/
def trimSpace (t : Bytes) : Bytes :=
  let right := (dropSpace spaceBefore t.length t.reverse).reverse
  dropSpace spaceAt right.length right

/-- A slice that ends an event: nothing but white space. -/
def blank (slice : Bytes) : Bool := trimSpace (trimSuffix cr (trimSuffix lf slice)) = []

/-! ## Events -/

/-- What a data line carries. -/
def dataLine (line : Bytes) : Option Bytes :=
  if (ascii "data:").isPrefixOf line then some (trimSpace (line.drop 5)) else none

/-- The data of an event's lines. -/
def eventData (lines : List Bytes) : Bytes := [lf].intercalate (lines.filterMap dataLine)

/-- A decoded object. -/
abbrev Object := List (String × Json)

inductive StreamError (ε : Type)
  | malformedStream
  | completionMalformed
  | terminalRequired
  | responseTooLarge
  /-- What `validateCompletion` or `normalizeResponsesStreamError` says. -/
  | reported (e : ε)
  deriving DecidableEq, Repr

/-- What a collector returns. -/
structure Collected (ε : Type) where
  response : Option Object
  error : Option (StreamError ε)

/-- **What the collectors call**: the decoder of a document with nothing
after it, `validateCompletion` and `normalizeResponsesStreamError`. -/
structure Protocol (ε : Type) where
  decode : Bytes → Option Json
  validateCompletion : Object → Option ε
  streamError : Object → ε

/-- What an event says. -/
inductive Verdict (ε : Type)
  | ignored
  | broken (e : StreamError ε)
  | completed (response : Object)
  | incomplete (response : Option Object)
  | failed (response : Option Object) (e : ε)

/-- `stringValue`. -/
def stringValue : Option Json → String
  | some (.str s) => s
  | _ => ""

/-- The fields of an object that has some. -/
def fields? : Option Json → Option Object
  | some (.obj (f :: fs)) => some (f :: fs)
  | _ => none

/-- The status, unless the response has one. -/
def withStatus (status : String) (o : Object) : Object :=
  if (Bindings.value? "status" o).isSome then o else o ++ [("status", .str status)]

namespace Protocol

variable {ε : Type} (P : Protocol ε)

/-- `decodeJSONObject`. -/
def decodeObject (data : Bytes) : Option Object :=
  match P.decode data with
  | some (.obj fields) => some fields
  | _ => none

/-- **The switch on an event's type.** -/
def verdict (data : Bytes) : Verdict ε :=
  if data = [] ∨ data = ascii "[DONE]" then .ignored
  else match P.decodeObject data with
    | none => .broken .malformedStream
    | some event =>
      let response := Bindings.value? "response" event
      let type := stringValue (Bindings.value? "type" event)
      if type = "response.completed" then
        match fields? response with
        | some o => .completed (withStatus "completed" o)
        | none => .broken .completionMalformed
      else if type = "response.incomplete" then .incomplete (fields? response)
      else if type = "response.failed" ∨ type = "error" then
        .failed (fields? response) (P.streamError event)
      else .ignored

/-- What `response.incomplete` leads to; the response is given its status
in place. -/
def incomplete (observed : Option Object) : Collected ε :=
  match observed with
  | some o =>
    let o := withStatus "incomplete" o
    ⟨some o, (P.validateCompletion o).map .reported⟩
  | none => ⟨none, (P.validateCompletion [("status", .str "incomplete")]).map .reported⟩

/-- What the stream was waited for. -/
def required : Collected ε := ⟨none, some .terminalRequired⟩

/-- **What an event decides**, when it is the first to. -/
def decides (data : Bytes) : Option (Collected ε) :=
  match P.verdict data with
  | .ignored => none
  | .broken e => some ⟨none, some e⟩
  | .completed o => some ⟨some o, none⟩
  | .incomplete response => some (P.incomplete response)
  | .failed response e => some ⟨response, some (.reported e)⟩

/-! ## Slice by slice -/

/-- `process`, on the block collected so far. -/
def process (block : Bytes) : Option (Collected ε) :=
  if block = [] then none else P.decides (eventData (splitLines (normalise block)))

/-- The reading loop. -/
def collectSlices (maximum : ℕ) (block : Bytes) (received : ℕ) :
    List (Bytes × Buffered.Stop) → Collected ε
  | [] => required
  | (slice, stop) :: rest =>
    if maximum < received + slice.length ∨ maximum < (block ++ slice).length then
      ⟨none, some .responseTooLarge⟩
    else if blank slice then
      match P.process (block ++ slice) with
      | some result => result
      | none =>
        if stop = .ended then required
        else collectSlices maximum [] (received + slice.length) rest
    else if stop = .ended then (P.process (block ++ slice)).getD required
    else collectSlices maximum (block ++ slice) (received + slice.length) rest

/-- The buffer of the reader. -/
def bufferSize : ℕ := 32768

def defaultMaxResponseBytes : ℕ := 16 <<< 20

/-- The limit in force. -/
def limit (maximum : ℤ) : ℕ := if maximum ≤ 0 then defaultMaxResponseBytes else maximum.toNat

/-- **The incremental collector.** -/
def collectReader (maximum : ℤ) (r : Buffered.Reader UInt8) : Collected ε :=
  P.collectSlices (limit maximum) [] 0 (r.slices bufferSize lf)

/-! ## A whole body -/

/-- The loop over the blocks. A completion is kept, and the loop goes on. -/
def collectBlocks (terminal : Option Object) : List Bytes → Collected ε
  | [] =>
    match terminal with
    | some o => ⟨some o, none⟩
    | none => required
  | data :: rest =>
    match P.verdict data with
    | .ignored => collectBlocks terminal rest
    | .broken e => ⟨terminal, some e⟩
    | .completed o => collectBlocks (some o) rest
    | .incomplete response => P.incomplete (response.or terminal)
    | .failed response e => ⟨response.or terminal, some (.reported e)⟩

/-- **The buffered collector.** -/
def collectBody (body : Bytes) : Collected ε :=
  P.collectBlocks none ((splitBlank (normalise body)).map fun block =>
    eventData ((splitLines block).map (trimSuffix cr)))

/-! ## What a stream says -/

/-- The data of the events of a stream: its lines, ended by a line feed with
or without a carriage return, in groups separated by empty lines. -/
def events (stream : Bytes) : List Bytes :=
  (groups (splitLines (normalise stream))).map eventData

/-- **What the first event that decides says.** -/
def firstTerminal (stream : Bytes) : Collected ε :=
  ((events stream).findSome? P.decides).getD required

/-- After a completion that is first to decide, no event decides. -/
def Quiet (stream : Bytes) : Prop :=
  ∀ before data after o, events stream = before ++ data :: after →
    (∀ d ∈ before, P.decides d = none) → P.verdict data = .completed o →
    ∀ d ∈ after, P.decides d = none

/-- **No line, and no piece of a long line, is blank unless it is empty**,
up to the event that decides: a slice that is blank is an empty line, from
its start. `block` is read of the event; the last slice may be anything. -/
def TidyFrom : Bool → Bytes → List (Bytes × Buffered.Stop) → Prop
  | _, _, [] => True
  | start, block, (slice, stop) :: rest =>
    (stop ≠ .ended → blank slice = true → start = true ∧ (slice = [lf] ∨ slice = [cr, lf]))
      ∧ ((blank slice && (P.process (block ++ slice)).isSome) = true
        ∨ TidyFrom (stop = .found) (if blank slice then [] else block ++ slice) rest)

instance TidyFrom.decidable : ∀ start block slices, Decidable (P.TidyFrom start block slices)
  | _, _, [] => inferInstanceAs (Decidable True)
  | _, block, (slice, stop) :: rest =>
    have := TidyFrom.decidable (stop = .found) (if blank slice then [] else block ++ slice) rest
    inferInstanceAs (Decidable (_ ∧ _))

def Tidy (stream : Bytes) : Prop :=
  P.TidyFrom true [] (Buffered.slicesFrom bufferSize lf [] stream)

instance (stream : Bytes) : Decidable (P.Tidy stream) := TidyFrom.decidable ..

end Protocol

end HardenLlm.Providers
