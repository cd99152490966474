import HardenLlm.Runtime.Model.Execute
/-!
# The recovery plan

`recovery_execute.go`: a structured call whose policy has a plan runs
through stages. An answer that does not validate moves it to the next
stage the plan has, with the failed outputs of its branch; any other
failure that may be retried repeats the stage. A rerun begins a second
branch.
-/

namespace HardenLlm.Runtime

variable {A : Type}

/-! ## Planned work -/

/-- **The work of one stage.** The target it was resolved to is read
again from its request where it is needed. -/
structure PlannedWork (A : Type) where
  call : Call A
  connection : Connection A
  credential : Credential
  generationBinding : ResolvedConnection A
  prepared : PreparedOperation
  generationCall : Call A
  branch : Branch
  stage : Stage
  history : List RepairHistoryEntry
  generationTarget : ExecutionTarget
  generationHash : String := ""

/-- The stage that follows, for an answer that did not validate. -/
def nextPlannedStage (policy : Policy) (branch : Branch) (stage : Stage) : Option Stage :=
  let rerun : Option Stage := if policy.rerun.isSome then some .rerunGenerate else none
  match branch with
  | .original =>
    match stage with
    | .originalGenerate => if policy.jsonRepair.isSome then some .originalRepairInitial else rerun
    | .originalRepairInitial =>
      if (policy.jsonRepair.bind (·.escalation)).isSome then some .originalRepairEscalate else rerun
    | .originalRepairEscalate => rerun
    | _ => none
  | .rerun =>
    match policy.rerun.bind (·.jsonRepair) with
    | none => none
    | some plan =>
      match stage with
      | .rerunGenerate => some .rerunRepairInitial
      | .rerunRepairInitial => if plan.escalation.isSome then some .rerunRepairEscalate else none
      | _ => none

/-- The plan's leaf for a stage. -/
def Policy.leaf (policy : Policy) : Stage → Option RecoveryTarget
  | .originalGenerate => none
  | .originalRepairInitial => policy.jsonRepair.map (·.initial)
  | .originalRepairEscalate => policy.jsonRepair.bind (·.escalation)
  | .rerunGenerate => policy.rerun.map (·.target)
  | .rerunRepairInitial => (policy.rerun.bind (·.jsonRepair)).map (·.initial)
  | .rerunRepairEscalate => (policy.rerun.bind (·.jsonRepair)).bind (·.escalation)

/-- A call with the settings of a leaf: those of a model leaf replace the
call's own, options and reasoning even where it has none. -/
def leafCall (call : Call A) (target : Option RecoveryTarget) : Call A :=
  match target with
  | none => call
  | some t =>
    if t.source = .model then
      { call with
        providerOptions := t.providerOptions
        reasoningEffort := t.reasoningEffort
        modelID := if t.modelID ≠ "" then t.modelID else call.modelID }
    else call

/-- The connection a leaf runs on; a model leaf may name another one of
those configured. -/
def leafBinding (selected : ResolvedConnection A) (call : Call A) (target : Option RecoveryTarget) :
    Option (ResolvedConnection A) :=
  match target with
  | none => some selected
  | some t =>
    if t.source = .model ∧ t.connectionID ≠ "" then call.connections t.connectionID
    else some selected

/-- What `preparePlannedWork` did and what came of it. -/
structure Prepared (A : Type) where
  work : Except Fault (PlannedWork A)
  actions : List (Action A)

/-- **A stage is prepared.** -/
def preparePlannedWork (selected : ResolvedConnection A) (baseCall : Call A) (branch : Branch)
    (stage : Stage) (target : Option RecoveryTarget) (repair : Option RepairRequest)
    (answer : Except Fault PreparedOperation) : Prepared A :=
  let call := leafCall { baseCall with repair := repair } target
  match leafBinding selected baseCall target with
  | none => ⟨.error (.plain "runtime recovery upstream is not configured"), []⟩
  | some binding =>
    { work := answer.map fun prepared =>
        let prepared := withCacheDomain prepared binding.connection
        { call := call
          connection := binding.connection
          credential := binding.credential
          generationBinding := binding
          prepared := prepared
          generationCall := { call with repair := none }
          branch := branch
          stage := stage
          history := (repair.map (·.history)).getD []
          generationTarget := targetFromPrepared binding.connection prepared }
      actions := [.prepare ⟨branch, stage, binding.connection, binding.credential, call⟩] }

namespace Invocation

variable (inv : Invocation A)

/-- The connection the call selected. -/
def selected : ResolvedConnection A := ⟨inv.connection, inv.credential⟩

/-- The call every stage starts from. -/
def baseCall : Call A :=
  if inv.call.webSearch ∧ ¬ inv.call.searchMemo then { inv.call with searchMemo := true }
  else inv.call

/-- The repair call of a stage. A leaf that takes the generation's
settings starts from the generation of its branch; no repair searches the
web. -/
def repairCall (current : PlannedWork A) (target : Option RecoveryTarget) : Call A :=
  if target.any (fun t => t.source = .generation) then
    { current.generationCall with webSearch := false }
  else { inv.baseCall with webSearch := false }

/-- The connection a repair starts from. -/
def repairBinding (current : PlannedWork A) (target : Option RecoveryTarget) :
    ResolvedConnection A :=
  if target.any (fun t => t.source = .generation) then current.generationBinding else inv.selected

/-- **The work after an answer that did not validate**, if the plan has
any. A rerun starts over from the call; a repair carries the branch's
generation along. -/
def prepareNextPlannedWork (current : PlannedWork A) (history : List RepairHistoryEntry)
    (attempt : ℕ) (answer : Except Fault PreparedOperation) : Option (Prepared A) :=
  match nextPlannedStage inv.policy current.branch current.stage with
  | none => none
  | some .rerunGenerate =>
    some (preparePlannedWork inv.selected { inv.baseCall with repair := none } .rerun .rerunGenerate
      (inv.policy.leaf .rerunGenerate) none answer)
  | some next =>
    let target := inv.policy.leaf next
    let repair : RepairRequest :=
      ⟨attempt + 1, inv.policy.maxAttempts, next, current.branch, inv.baseCall.schema, history⟩
    let prepared := preparePlannedWork (inv.repairBinding current target)
      (inv.repairCall current target) current.branch next target (some repair) answer
    some { prepared with work := prepared.work.map fun work =>
      { work with
        generationHash := current.generationHash
        generationTarget := current.generationTarget
        generationCall := current.generationCall
        generationBinding := current.generationBinding } }

end Invocation

/-! ## Validation of the plan -/

/-- The leaves, checked again before the first dispatch. -/
def validateRecoveryTargets (policy : Policy) : Option ValidationError :=
  let repair (field : String) (plan : RepairPlan) : Option ValidationError :=
    (plan.initial.validate (field ++ ".initial") true).or
      (plan.escalation.bind fun t => t.validate (field ++ ".escalation") true)
  (policy.jsonRepair.bind (repair "recoveryPolicy.jsonRepair")).or
    (policy.rerun.bind fun plan =>
      (plan.target.validate "recoveryPolicy.rerun.target" false).or
        (plan.jsonRepair.bind (repair "recoveryPolicy.rerun.jsonRepair")))

/-! ## Failures -/

/-- An output as a repair is shown it. -/
def encodeRepairOutput : Output → String
  | .none | .unencodable => ""
  | .text s => Json.quote s
  | .value v => v.encode
  | .assistant content calls => (assistantDocument content calls).encode

/-- The longest part from the front that fits. -/
def takeBytes (limit : ℕ) : List Char → List Char
  | [] => []
  | c :: rest => if c.utf8Size ≤ limit then c :: takeBytes (limit - c.utf8Size) rest else []

/-- The error's text, cut at 8 KiB. The source keeps the first bytes of a
code point it cuts; here it is left out. -/
def boundedError (f : Fault) : String := String.ofList (takeBytes (8 * 1024) f.text.toList)

def exhaustedRecoveryError : Fault :=
  .providerError "RECOVERY_ATTEMPTS_EXHAUSTED" .other
    "recovery attempt budget exhausted: attempts_exhausted"

namespace Planned

variable [Amounts A] (inv : Invocation A)

/-- An attempt's failure, with the output a repair is shown and the
responses captured. -/
structure Verdict where
  failure : Option Fault
  previousOutput : String
  captured : List String

/-- A result that its stage's validator does not accept is a parse
failure; other checks fail for themselves. -/
def schemaFailure (callType : CallType) (f : Fault) : Fault :=
  if callType = .structured ∧ f.provider? = none then
    .provider { code := "STRUCTURED_SCHEMA", category := some .parse } f
  else f

/-- **The settled attempt is judged.** -/
def judge (call : Call A) (s : Settled A) : Verdict :=
  let output := encodeRepairOutput s.result.output
  let admitted : Option Fault × List String :=
    match s.failure with
    | some f => (some f, [])
    | none =>
      match admitResult inv.parseURL s.result call.callType call.validateStructured with
      | none => (none, [])
      | some f => (some (schemaFailure call.callType f), [output])
  { failure := admitted.1
    previousOutput := (parseFailureResponse admitted.1).getD output
    captured := admitted.2 ++ (parseFailureResponse admitted.1).toList }

/-- What is kept between two attempts. -/
structure State (A : Type) where
  run : RunState A
  attempt : ℕ
  work : PlannedWork A
  lastWorkStage : Option Stage := none
  lastWorkAttempt : ℕ := 0

/-- Events about the stage under way. -/
def emit (run : RunState A) (work : PlannedWork A) (type : ProgressType) (attempt : ℕ)
    (active : StreamDiagnostics := {}) : RunState A :=
  run.emit inv work.stage work.branch work.connection.id work.call.reasoningEffort type attempt
    active

/-- A run that stops for this reason. -/
def stopped (run : RunState A) (reason : StopReason) : RunState A :=
  { run with record := { run.record with stopReason := some reason } }

/-- The attempt is made. Search evidence is kept whatever comes of it. -/
def attempt (s : State A) (r : Round A) : RunState A × Settled A :=
  let run := r.streamed.foldl
    (fun run active => emit inv run s.work .progress (s.attempt + 1) active) s.run
  let settled := settle s.work.connection run.accumulator r.result r.failure
  let record :=
    ({ run.record with
      assistantText := r.result.assistantText
      search := r.result.search.or run.record.search }).measure r.result.stream
  ({ run with
      accumulator := settled.accumulator
      record := { record with accounting := { record.accounting with
        provider := settled.accumulator.total } } }, settled)

/-- An answer that did not validate. -/
def semanticParse (failure : Option Fault) (c : Classification) : Bool :=
  failure.isSome && c.category = .parse

/-- The classification, with what the plan makes of it. -/
def planned (work : PlannedWork A) (failure : Option Fault) : Classification :=
  let c := classify failure inv.policy
  let semantic := semanticParse failure c
  let next := semantic && (nextPlannedStage inv.policy work.branch work.stage).isSome
  { c with retryable := c.retryable || next }

def attemptRecord (s : State A) (r : Round A) (result : ProviderResult A) (c : Classification) :
    AttemptRecord where
  number := s.attempt + 1
  connectionID := s.work.connection.id
  target := targetFromPrepared s.work.connection s.work.prepared
  providerUsed := result.providerDispatched
  classification := c
  duration := max 0 (r.ended - r.started)
  repair := s.work.call.repair.isSome
  stage := s.work.stage
  branch := s.work.branch
  triggerAttempt := (s.work.history.head?.map (·.attempt)).getD 0
  inputAttempts := s.work.history.map (·.attempt)
  transportRetryOf := if s.lastWorkStage = some s.work.stage then s.lastWorkAttempt else 0
  startedAt := r.started
  finishedAt := r.finished
  reasoningEffort := s.work.call.reasoningEffort
  stream := result.stream.noted

/-- A result was admitted: it is recorded, and written to the cache under
the generation of its branch. -/
def admitted (run : RunState A) (r : Round A) (work : PlannedWork A) (result : ProviderResult A)
    (number : ℕ) : RunState A :=
  let producer := targetFromPrepared work.connection work.prepared
  let run := { run with record := run.record.succeed result number producer }
  if inv.cacheMode = .off then stopped run .succeeded
  else
    let cached : CachedResult A :=
      { providerResult := { result with search := result.search.or run.record.search }
        producer := producer
        generationTarget := work.generationTarget
        completedBy := if work.call.repair.isSome then .repair else .generation }
    let run := run.act (.store work.generationHash inv.version cached)
    let cache := run.record.cache
    if r.stored.isSome then
      { run with record := { run.record with cache := { cache with status := .writeFailed } } }
    else stopped { run with record := { run.record with cache := { cache with written := true } } }
      .succeeded

/-- How the loop stops: with which error, and in which stage. -/
structure Stop (A : Type) where
  run : RunState A
  work : Option (PlannedWork A)
  err : Option Fault

/-- The branch's generation gets its cache key. -/
def keyed (run : RunState A) (work : PlannedWork A) (hash : String)
    (facts : CacheFacts → CacheFacts) : RunState A × PlannedWork A :=
  ({ run with record := { run.record with cache := facts run.record.cache } },
    { work with generationHash := hash })

/-- The cache is asked for the generation of a branch. What it returns
ends the run, if it is admitted or not. -/
def readCache (run : RunState A) (work : PlannedWork A)
    (cached : Except Fault (Option (CachedResult A))) :
    Turn (RunState A) (RunState A × Option Fault) :=
  if inv.cacheMode ≠ .cache then .next run
  else
    let run := run.act (.lookup work.generationHash inv.version)
    match cached with
    | .error f => .stop (run, some f)
    | .ok none => .next run
    | .ok (some cached) =>
      match admitPlannedCachedResult inv.parseURL work.generationTarget cached inv.baseCall with
      | some _ => .stop (run, some .cacheIntegrity)
      | none =>
        let record := (run.record.serve cached).noteCache work.branch work.generationTarget
        .stop (stopped { run with record := record } .succeeded, none)

/-- The record notes what the cache has for the branch. -/
def noteBranch (run : RunState A) (work : PlannedWork A) : RunState A :=
  { run with record := run.record.noteCache work.branch work.generationTarget }

/-- The status of the original branch's cache, when it has nothing. -/
def freshStatus (run : RunState A) : RunState A :=
  { run with record := { run.record with cache := { run.record.cache with
      status := if inv.cacheMode = .cache then .miss else .refresh } } }

/-- The original generation's cache: its key, and what it holds. -/
def openOriginal (run : RunState A) (work : PlannedWork A) (o : Opening A) :
    Turn (RunState A × PlannedWork A) (Stop A) :=
  if inv.cacheMode = .off then .next (emit inv run work .started 0, work)
  else match o.hashed with
    | .error f => .stop ⟨run, some work, some f⟩
    | .ok hash =>
      let (run, work) := keyed run work hash fun cache =>
        { cache with operationHash := hash, originalOperationHash := hash }
      match readCache inv (emit inv run work .started 0) work o.cached with
      | .stop (run, err) => .stop ⟨run, some work, err⟩
      | .next run => .next (noteBranch (freshStatus inv run) work, work)

/-- The rerun's cache, while `work` is still the stage before. -/
def openRerun (run : RunState A) (work next : PlannedWork A) (r : Round A) :
    Turn (RunState A × PlannedWork A) (Stop A) :=
  let run := { run with record := { run.record with
    branch := next.branch, generationTarget := next.generationTarget } }
  if inv.cacheMode = .off then .next (run, next)
  else match r.hashed with
    | .error f => .stop ⟨run, some work, some f⟩
    | .ok hash =>
      let (run, next) := keyed run next hash fun cache =>
        { cache with operationHash := hash, rerunOperationHash := hash }
      match readCache inv run next r.cached with
      | .stop (run, err) => .stop ⟨run, some work, err⟩
      | .next run => .next (noteBranch run next, next)

/-- **The next stage**, after an answer that did not validate. -/
def advance (s : State A) (run : RunState A) (v : Verdict) (f : Fault) (r : Round A) :
    Turn (State A) (Stop A) :=
  let number := s.attempt + 1
  if inv.policy.maxAttempts ≤ number then
    .stop ⟨stopped run .attemptsExhausted, some s.work, some f⟩
  else
    let entry : RepairHistoryEntry := ⟨s.work.stage, number, v.previousOutput, boundedError f⟩
    match inv.prepareNextPlannedWork s.work (s.work.history ++ [entry]) number r.prepared with
    | none => .stop ⟨stopped run .recoveryExhausted, some s.work, some f⟩
    | some prepared =>
      let run := { run with actions := run.actions ++ prepared.actions }
      match prepared.work with
      | .error f => .stop ⟨stopped run .configurationError, some s.work, some f⟩
      | .ok next =>
        let opened : Turn (RunState A × PlannedWork A) (Stop A) :=
          if next.branch ≠ s.work.branch then openRerun inv run s.work next r else .next (run, next)
        match opened with
        | .stop stop => .stop stop
        | .next (run, next) => .next ⟨run, number, next, some s.work.stage, number⟩

/-- The stage again, after a delay. -/
def retry (s : State A) (run : RunState A) (f : Fault) (c : Classification) (r : Round A) :
    Turn (State A) (Stop A) :=
  let number := s.attempt + 1
  if inv.policy.maxAttempts ≤ number then
    .stop ⟨stopped run .attemptsExhausted, some s.work, some f⟩
  else
    let delay := delay number c.retryAfter inv.policy.backoff r.random
    if inv.deadline.any (fun deadline => deadline - r.planned ≤ delay) then
      .stop ⟨stopped run .deadlineExceeded, some s.work, some .deadlineExceeded⟩
    else
      let wait : WaitDiagnostics :=
        ⟨c.category, delay, max 0 (r.waitFinished - r.waitStarted), c.retryAfter⟩
      let run := { run with record := run.record.noteWait delay wait }
      match r.waited with
      | some f => .stop ⟨stopped run (stopReasonFor (some f)), some s.work, some f⟩
      | none => .next ⟨run, number, s.work, some s.work.stage, number⟩

/-- An attempt, recorded, with what was found about it. -/
structure Tried (A : Type) where
  run : RunState A
  result : ProviderResult A
  verdict : Verdict
  classification : Classification

/-- The attempt is made, judged and recorded. -/
def tried (s : State A) (r : Round A) : Tried A :=
  let (run, settled) := attempt inv { s with run := emit inv s.run s.work .progress s.attempt } r
  let v := judge inv s.work.call settled
  let c := planned inv s.work v.failure
  let record := v.captured.foldl (·.captureParseFailureResponse ·) run.record
  let record := { record with
    attempts := record.attempts ++ [attemptRecord s r settled.result c] }
  let run := { run with record := record }.act (.attempt
    ⟨s.attempt + 1, s.work.branch, s.work.stage, s.work.connection, s.work.call, s.work.prepared,
      s.run.accumulator, r.result.output, v.failure⟩)
  ⟨emit inv run s.work .progress (s.attempt + 1), settled.result, v, c⟩

/-- **One attempt of the plan.** -/
def body (s : State A) (r : Round A) : Turn (State A) (Stop A) :=
  let run := emit inv s.run s.work .progress s.attempt
  match executionContextError inv.deadline r.entry with
  | some f => .stop ⟨stopped run (stopReasonFor (some f)), some s.work, some f⟩
  | none =>
    if inv.policy.maxAttempts ≤ s.attempt then
      .stop ⟨stopped run .attemptsExhausted, some s.work, some exhaustedRecoveryError⟩
    else
      let t := tried inv s r
      match t.verdict.failure with
      | none => .stop ⟨admitted inv t.run r s.work t.result (s.attempt + 1), some s.work, none⟩
      | some f =>
        match executionContextError inv.deadline r.settled with
        | some e => .stop ⟨stopped t.run (stopReasonFor (some e)), some s.work, some e⟩
        | none =>
          if semanticParse t.verdict.failure t.classification then advance inv s t.run t.verdict f r
          else if t.classification.retryable = false then
            .stop ⟨stopped t.run (stopReasonFor (some f)), some s.work, some f⟩
          else retry inv s t.run f t.classification r

/-! ## The run -/

/-- The original generation is prepared and looked up, and the leaves are
checked before anything is sent. -/
def start (o : Opening A) : Turn (State A) (Stop A) :=
  let run : RunState A := ⟨inv.timedRecord o.started, newProviderAccumulator, 0, [], []⟩
  let prepared := preparePlannedWork inv.selected inv.baseCall .original .originalGenerate none none
    o.prepared
  let run := { run with actions := prepared.actions }
  match prepared.work with
  | .error f => .stop ⟨run, none, some f⟩
  | .ok work =>
    let run := { run with record := { run.record with generationTarget := work.generationTarget } }
    match openOriginal inv run work o with
    | .stop stop => .stop stop
    | .next (run, work) =>
      match validateRecoveryTargets inv.policy with
      | some v => .stop ⟨stopped run .configurationError, some work, some (.validation v)⟩
      | none => .next { run := run, attempt := 0, work := work }

/-- The deferred end; a run that never had a stage has no last event. -/
def close (o : Opening A) (stop : Stop A) : Ending A :=
  stop.run.finish inv stop.err stop.run.record.branch (o.closed - o.started) fun s =>
    match stop.work with
    | none => s
    | some work => emit inv s work .terminal s.record.attempts.length

end Planned

variable [Amounts A]

/-- **`executeRecoveryPlan`.** -/
def executeRecoveryPlan (inv : Invocation A) (o : Opening A) (rounds : ℕ → Round A) :
    Option (Ending A) :=
  let failed (record : CallRecord A) (f : Fault) : Option (Ending A) := some ⟨record, some f, [], []⟩
  if inv.call.callType ≠ .structured then
    failed zeroRecord (.plain "runtime explicit recovery plans require structured calls")
  else if inv.connection.id = "" then
    failed zeroRecord (.plain "runtime connection ID is required")
  else match executionContextError inv.deadline o.entry with
    | some f => failed { inv.newRecord with stopReason := some (stopReasonFor (some f)) } f
    | none =>
      if inv.cacheMode ≠ .off ∧ inv.hasCache = false then
        failed inv.newRecord (.plain "runtime cache is required when cache mode is active")
      else match Planned.start inv o with
        | .stop stop => some (Planned.close inv o stop)
        | .next s => (Loop.run (Planned.body inv) rounds (inv.policy.maxAttempts.toNat + 2) 0 s).map
            (Planned.close inv o)

/-- **`Execute`.** -/
def execute (inv : Invocation A) (o : Opening A) (rounds : ℕ → Round A) : Option (Ending A) :=
  let failed (f : Fault) : Option (Ending A) := some ⟨zeroRecord, some f, [], []⟩
  match inv.policy.validate with
  | some v => failed (.validation v)
  | none =>
    if inv.connection.id = "" then failed (.plain "runtime connection ID is required")
    else if inv.call.callType = .structured ∧ inv.call.validateStructured.isNone then
      failed (.plain "structured call validator is required")
    else if inv.call.callType = .structured ∧ inv.policy.usesExplicitPlan then
      executeRecoveryPlan inv o rounds
    else Simple.run inv o rounds

end HardenLlm.Runtime
