import HardenLlm.Client.Projection
import HardenLlm.Gateway.Model.Bodies
import HardenLlm.Providers.Requests
import HardenLlm.Runtime.Served
import HardenLlm.Stateful.Cache
/-!
# Replaying cached results

A result that a run wrote to the cache comes back to a later call as it
was, as long as it is what the adapter's projection keeps: the original
text of an answer is not kept, tool calls are read back as a plain value,
and a document can be nested too deep to be decoded. Evidence that was
never checked is refused, and so is the result of a repair by a call
without a recovery plan.
-/

namespace HardenLlm.Client

open CacheAdapter

open HardenLlm.Runtime HardenLlm.Gateway HardenLlm.Providers
open HardenLlm.Cachekey (defaultVersion)
open HardenLlm.Stateful.Sample
  (digest digest_injective operation operationHash hash_operation)

variable {A : Type}

/-! ## Targets -/

/-- A target that may have produced a result of another. -/
theorem validateCacheProducer_eq_none {producer expected : ExecutionTarget} :
    validateCacheProducer producer expected = none ↔ trimSpace producer.connectionID ≠ ""
      ∧ producer.provider = expected.provider ∧ producer.protocol = expected.protocol
      ∧ producer.endpoint = expected.endpoint ∧ producer.modelID = expected.modelID := by
  unfold validateCacheProducer
  split
  · rename_i h
    refine ⟨fun hnone => (by cases hnone), fun hall => ?_⟩
    rcases h with h | h | h | h | h
    · exact absurd h hall.1
    · exact absurd hall.2.1 h
    · exact absurd hall.2.2.1 h
    · exact absurd hall.2.2.2.1 h
    · exact absurd hall.2.2.2.2 h
  · rename_i h
    push Not at h
    exact ⟨fun _ => h, fun _ => rfl⟩

/-- Two targets but for their connection. -/
structure Matches (t u : ExecutionTarget) : Prop where
  provider : t.provider = u.provider
  protocol : t.protocol = u.protocol
  endpoint : t.endpoint = u.endpoint
  modelID : t.modelID = u.modelID

theorem Matches.validate {t u producer : ExecutionTarget} (h : Matches t u) :
    validateCacheProducer producer t = validateCacheProducer producer u := by
  unfold validateCacheProducer
  rw [h.provider, h.protocol, h.endpoint, h.modelID]

theorem connectionID_of_snapshot {t : ExecutionTarget} (h : validateTargetSnapshot t = none) :
    trimSpace t.connectionID ≠ "" := by
  unfold validateTargetSnapshot at h
  split at h
  · cases h
  · rename_i hnamed
    exact fun hblank => hnamed (.inl hblank)

/-! ## Keys -/

variable {sha256 : ByteArray → String} {toUpper : String → String}

/-- **The keys of a run** are the hashes of the requests it prepared. -/
def HashesRequests (sha256 : ByteArray → String) (toUpper : String → String) (inv : Invocation A)
    (o : Opening A) (rounds : ℕ → Round A) : Prop :=
  ∀ p hash, Keyed o rounds p hash → ∃ operation, Describes inv.call.callType operation p
    ∧ Cachekey.hash toUpper sha256 operation inv.version = .ok hash

/-- What is hashed names its provider. -/
theorem provider_of_hash {operation : Cachekey.Operation} {version hash : String}
    (h : Cachekey.hash toUpper sha256 operation version = .ok hash) :
    operation.responseProjection.provider ≠ "" := by
  obtain ⟨bytes, hbytes, -⟩ := map_eq_ok.1 h
  obtain ⟨d, hd, -⟩ := Cachekey.hashInput_ok.1 hbytes
  obtain ⟨n, hn, -⟩ := bind_eq_ok.1 hd
  have hrequired := (Cachekey.normalize_ok.1 hn).2.1
  intro hempty
  refine hrequired ?_
  simp [Cachekey.Operation.required, Cachekey.Operation.trimmed, hempty, Runtime.trimSpace]

/-- **Generations with one key** go to targets that match, and ask for one
kind of answer. -/
theorem matches_of_keyed (hsha : Function.Injective sha256) {inv inv' : Invocation A}
    {o o' : Opening A} {rounds rounds' : ℕ → Round A} {hash : String}
    {target target' : ExecutionTarget} (hr : HashesRequests sha256 toUpper inv o rounds)
    (hr' : HashesRequests sha256 toUpper inv' o' rounds')
    (ht : KeyedTarget o rounds hash target) (ht' : KeyedTarget o' rounds' hash target') :
    Matches target target' ∧ inv.call.callType = inv'.call.callType := by
  obtain ⟨p, connection, hp, rfl⟩ := ht
  obtain ⟨q, connection', hq, rfl⟩ := ht'
  obtain ⟨operation, hdescribes, hhash⟩ := hr p hash hp
  obtain ⟨operation', hdescribes', hhash'⟩ := hr' q hash hq
  obtain ⟨hsame, htype⟩ :=
    hdescribes.same hdescribes' (Cachekey.agrees_of_hash_eq hsha hhash hhash')
  have hprovider : p.operation.responseProvider ≠ "" := by
    rw [hdescribes.provider]
    exact provider_of_hash hhash
  refine ⟨⟨?_, hsame.protocol, hsame.endpoint, hsame.model⟩, htype⟩
  simp [targetFromPrepared, withCacheDomain, ← hsame.provider, hprovider]

/-! ## Entries and calls -/

variable [Amounts A]

variable (A sha256 toUpper) in
/-- **A result in the cache**: a run wrote it, and the adapter encoded it.
Connections have IDs, and requests name what they go to. -/
structure Entry where
  inv : Invocation A
  opening : Opening A
  rounds : ℕ → Round A
  ending : Ending A
  executed : execute inv opening rounds = some ending
  hash : String
  version : String
  result : CachedResult A
  stored : .store hash version result ∈ ending.actions
  createdAt : ℤ
  record : ResultRecord A
  written : set hash version result createdAt = .ok record
  normal : Normal result.providerResult.output
  requests : HashesRequests sha256 toUpper inv opening rounds
  named : validateTargetSnapshot result.producer = none
    ∧ validateTargetSnapshot result.generationTarget = none

/-- **A later call** that asks the cache for the entry's key, with the
same schema and whatever policy. The store returns the record it was
given. -/
structure Replay (e : Entry A sha256 toUpper) where
  inv : Invocation A
  opening : Opening A
  rounds : ℕ → Round A
  ending : Ending A
  executed : execute inv opening rounds = some ending
  looked : .lookup e.hash e.version ∈ ending.actions
  opened : opening.hashed = .ok e.hash →
    opening.cached = get (some e.record) e.hash e.version
  rerun : ∀ n, (rounds n).hashed = .ok e.hash →
    (rounds n).cached = get (some e.record) e.hash e.version
  requests : HashesRequests sha256 toUpper inv opening rounds
  schema : inv.call.validateStructured = e.inv.call.validateStructured
  parseURL : inv.parseURL = e.inv.parseURL

/-- Which target a result is from. -/
def producer? : ResultSource → Option ExecutionTarget
  | .none => none
  | .provider _ producer => some producer
  | .cache producer => some producer

/-- **The hit is the fresh result again**, to the caller and to the
clients of the gateway. -/
structure Faithful (e : Entry A sha256 toUpper) (r : Replay e) : Prop where
  succeeds : r.ending.err = none
  hit : r.ending.record.cache.status = .hit
  output : r.ending.record.output = e.ending.record.output
  assistantText : r.ending.record.assistantText = e.ending.record.assistantText
  search : r.ending.record.search = e.ending.record.search
  accounting : r.ending.record.accounting.result = e.ending.record.accounting.result
  producer : producer? r.ending.record.resultSource = producer? e.ending.record.resultSource
  chat : ∀ includeUsage,
    chatResponse r.ending.record includeUsage = chatResponse e.ending.record includeUsage
  responses : responsesResponse r.ending.record = responsesResponse e.ending.record

/-- **What the cache keeps of a result**, and which callers admit it. -/
structure Replayable (e : Entry A sha256 toUpper) (inv : Invocation A) : Prop where
  /-- There is no original text beside the output. -/
  untexted : e.result.providerResult.assistantText = ""
  /-- The output has no tool calls. -/
  generic : ∀ content calls, e.result.providerResult.output ≠ .assistant content calls
  shallow : ∀ v, e.result.providerResult.output = .value v → v.depth < Json.maxNestingDepth
  evidence : validateSearchResult inv.parseURL e.result.providerResult.search = none
  /-- A caller without a plan takes the result of the generation only. -/
  producer : ¬ inv.HasPlan →
    validateCacheProducer e.result.producer e.result.generationTarget = none

namespace Entry

variable {e : Entry A sha256 toUpper}

variable (e) in
/-- **The entry as the adapter reads it.** -/
theorem get_record : ∃ document, outputDocument e.result.providerResult.output = some document
    ∧ get (some e.record) e.hash e.version = match decodeOutput document with
      | none => .error .cacheIntegrity
      | some output => .ok (some (replayed e.result output)) := by
  obtain ⟨-, document, hdocument, hrecord⟩ := set_ok e.written
  exact ⟨document, hdocument, hrecord ▸ get_newRecord⟩

end Entry

/-! ## Admission -/

theorem admitResult_of {parseURL : String → Option URL} {result : ProviderResult A}
    {callType : CallType} {validator : Option (Output → Option Fault)}
    (hledger : validateLedger result.accounting = none)
    (houtput : acceptedOutput result.output = true)
    (hsearch : validateSearchResult parseURL result.search = none)
    (hstructured : callType = .structured →
      ∃ validate, validator = some validate ∧ validate result.output = none) :
    admitResult parseURL result callType validator = none := by
  unfold admitResult
  rw [hledger]
  simp only [houtput, hsearch, Bool.not_true, Bool.false_eq_true, if_false, Option.isSome_none]
  split
  · rename_i htype
    obtain ⟨validate, rfl, hvalid⟩ := hstructured htype
    exact hvalid
  · rfl

/-- The caller's executor admits the producer of an entry. -/
def producerCheck (inv : Invocation A) (target : ExecutionTarget) (c : CachedResult A) :
    Option Fault :=
  if inv.call.callType = .structured ∧ inv.policy.usesExplicitPlan = true then
    validatePlannedProducer target c
  else validateCacheProducer c.producer target

theorem admission_eq_none {inv : Invocation A} {target : ExecutionTarget} {c : CachedResult A} :
    inv.admission target c = none ↔ producerCheck inv target c = none
      ∧ admitResult inv.parseURL c.providerResult inv.call.callType inv.call.validateStructured
        = none := by
  have hbase := sameContract_baseCall inv
  unfold Runtime.Invocation.admission producerCheck
  split
  · rw [admitPlannedCachedResult, Option.or_eq_none_iff, hbase.callType, hbase.validateStructured]
  · rw [admitCachedResult, Option.or_eq_none_iff]

omit [Amounts A] in
/-- **A plan admits whatever a run wrote**, a generation as its own
producer and a repair with both its targets. -/
theorem validatePlannedProducer_of {target : ExecutionTarget} {c : CachedResult A}
    (hmatches : Matches target c.generationTarget)
    (hnamed : validateTargetSnapshot c.producer = none
      ∧ validateTargetSnapshot c.generationTarget = none)
    (hcompleted : c.completedBy = .repair
      ∨ (c.completedBy = .generation ∧ c.producer = c.generationTarget)) :
    validatePlannedProducer target c = none := by
  have hid : c.generationTarget.connectionID ≠ "" := by
    intro hempty
    refine connectionID_of_snapshot hnamed.2 ?_
    rw [hempty]
    rfl
  have hself : validateCacheProducer c.generationTarget c.generationTarget = none :=
    validateCacheProducer_eq_none.2
      ⟨connectionID_of_snapshot hnamed.2, rfl, rfl, rfl, rfl⟩
  unfold validatePlannedProducer
  rw [if_neg hid]
  rcases hcompleted with hrepair | ⟨hgeneration, hproducer⟩
  · rw [hrepair]
    exact Option.or_eq_none_iff.2 ⟨hnamed.2, hnamed.1⟩
  · rw [hgeneration, hproducer]
    exact Option.or_eq_none_iff.2 ⟨hmatches.validate.trans hself, hself⟩

/-! ## Replays -/

/-- **How a replay ends**: for the document of the entry's output and the
target of the caller's generation. -/
structure Replay.Ends {e : Entry A sha256 toUpper} (r : Replay e) (document : Json)
    (target : ExecutionTarget) : Prop where
  encoded : outputDocument e.result.providerResult.output = some document
  target_matches : Matches target e.result.generationTarget
  callType : r.inv.call.callType = e.inv.call.callType
  failed : decodeOutput document = none → r.ending.err = some .cacheIntegrity
  refused : ∀ output, decodeOutput document = some output →
    r.inv.admission target (replayed e.result output) ≠ none →
      r.ending.err = some .cacheIntegrity
  served : ∀ output, decodeOutput document = some output →
    r.inv.admission target (replayed e.result output) = none →
      r.ending.err = none ∧ Serves r.ending.record (replayed e.result output)

theorem replay_ends (hsha : Function.Injective sha256) (e : Entry A sha256 toUpper)
    (r : Replay e) : ∃ document target, r.Ends document target := by
  obtain ⟨-, -, hwrote⟩ := execute_stored e.executed e.stored
  obtain ⟨document, hdocument, hget⟩ := e.get_record
  have hreturns : Returns r.opening r.rounds e.hash
      (get (some e.record) e.hash e.version) := by
    refine ⟨r.opened, r.rerun, ?_⟩
    rw [hget]
    split <;> exact fun h => by cases h
  obtain ⟨-, target, htarget, hanswered⟩ := execute_looked hreturns r.executed r.looked
  obtain ⟨hmatches, htype⟩ :=
    matches_of_keyed hsha r.requests e.requests htarget hwrote.generation
  rw [hget] at hanswered
  refine ⟨document, target, hdocument, hmatches, htype, ?_, ?_, ?_⟩
  · intro hnone
    rw [hnone] at hanswered
    exact hanswered
  · intro output hsome hne
    rw [hsome] at hanswered
    exact hanswered.2 hne
  · intro output hsome hadmitted
    rw [hsome] at hanswered
    exact hanswered.1 hadmitted

section

variable {e : Entry A sha256 toUpper} {r : Replay e} {document : Json} {target : ExecutionTarget}

/-- A hit that is like the fresh result. -/
theorem replayable_of_faithful (h : r.Ends document target) (hf : Faithful e r) :
    Replayable e r.inv := by
  obtain ⟨-, -, hwrote⟩ := execute_stored e.executed e.stored
  obtain ⟨output, hdecode⟩ : ∃ output, decodeOutput document = some output := by
    refine Option.ne_none_iff_exists'.1 fun hnone => ?_
    cases hf.succeeds.symm.trans (h.failed hnone)
  have hadmitted : r.inv.admission target (replayed e.result output) = none := by
    by_contra hne
    cases hf.succeeds.symm.trans (h.refused output hdecode hne)
  have hserves := (h.served output hdecode hadmitted).2
  obtain ⟨hproducer, hresult⟩ := admission_eq_none.1 hadmitted
  -- The output that came back is the one that was written.
  have houtput : output = e.result.providerResult.output :=
    hserves.output.symm.trans (hf.output.trans hwrote.output)
  refine
    { untexted := hwrote.assistantText.symm.trans (hf.assistantText.symm.trans hserves.assistantText)
      generic := fun content calls hassistant => ?_
      shallow := fun v hv => ?_
      evidence := (admitResult_eq_none hresult).2.2.1
      producer := fun hplan => ?_ }
  · rw [houtput, hassistant] at hdecode
    exact decodeOutput_ne_assistant _ _ _ hdecode
  · have hdocument := h.encoded
    have hnormal := e.normal
    rw [hv] at hdocument hnormal
    cases hdocument
    by_contra hdeep
    rw [decodeOutput_of_deep hnormal.2.1 (not_lt.1 hdeep)] at hdecode
    cases hdecode
  · have hvalid : validateCacheProducer e.result.producer target = none := by
      have hplain : ¬ (r.inv.call.callType = .structured ∧ r.inv.policy.usesExplicitPlan = true) :=
        hplan
      unfold producerCheck at hproducer
      rw [if_neg hplain] at hproducer
      exact hproducer
    exact h.target_matches.validate.symm.trans hvalid

/-- A result that the cache keeps is admitted, and returned. -/
theorem faithful_of_replayable (h : r.Ends document target) (hr : Replayable e r.inv) :
    Faithful e r := by
  obtain ⟨-, -, hwrote⟩ := execute_stored e.executed e.stored
  have hdecode : decodeOutput document = some e.result.providerResult.output :=
    decodeOutput_document e.normal h.encoded (set_ok e.written).1 hr.generic hr.shallow
  have hproducer : producerCheck r.inv target
      (replayed e.result e.result.providerResult.output) = none := by
    unfold producerCheck
    split
    · exact validatePlannedProducer_of h.target_matches e.named hwrote.completed
    · rename_i hplan
      exact h.target_matches.validate.trans (hr.producer hplan)
  have hstructured : r.inv.call.callType = .structured → ∃ validate,
      r.inv.call.validateStructured = some validate
        ∧ validate e.result.providerResult.output = none := by
    rw [h.callType, r.schema]
    exact hwrote.structured
  have hadmitted := admission_eq_none.2 ⟨hproducer,
    admitResult_of hwrote.valid hwrote.accepted hr.evidence hstructured⟩
  obtain ⟨hsucceeds, hserves⟩ := h.served _ hdecode hadmitted
  have houtput := hserves.output.trans hwrote.output.symm
  have htext : r.ending.record.assistantText = e.ending.record.assistantText :=
    hserves.assistantText.trans (hr.untexted.symm.trans hwrote.assistantText.symm)
  have hledger := hserves.ledger.trans hwrote.ledger.symm
  have hcontent : outputContent r.ending.record = outputContent e.ending.record := by
    unfold outputContent
    rw [houtput, htext]
  obtain ⟨n, hsource⟩ := hwrote.source
  exact
    { succeeds := hsucceeds
      hit := hserves.hit
      output := houtput
      assistantText := htext
      search := hserves.search.trans hwrote.search.symm
      accounting := hledger
      producer := by rw [hserves.source, hsource]; rfl
      chat := fun includeUsage => by unfold chatResponse; rw [hcontent, hledger]
      responses := by unfold responsesResponse; rw [hcontent, hledger] }

end

/-- **A cached result is replayed as it was** exactly if the projection
keeps all of it, its evidence is in order and the caller's executor admits
its producer. -/
theorem faithful_iff_replayable (hsha : Function.Injective sha256) (e : Entry A sha256 toUpper)
    (r : Replay e) : Faithful e r ↔ Replayable e r.inv := by
  obtain ⟨document, target, h⟩ := replay_ends hsha e r
  exact ⟨replayable_of_faithful h, faithful_of_replayable h⟩

namespace Sample

def connection : Connection ℤ := { id := "upstream", provider := "openai" }

def request : PreparedOperation where
  operation :=
    { protocol := "openai.responses", endpointIdentity := "https://upstream", model := "m"
      responseProvider := "openai" }

theorem describes_request : Describes .text operation request where
  protocol := rfl
  endpoint := rfl
  model := rfl
  provider := rfl
  kind := rfl
  plain := by decide +kernel
  named := by
    rw [if_neg (by decide)]
    exact ⟨[("model", .str "m")], rfl, rfl⟩

def invocation : Invocation ℤ where
  connection := connection
  credential := ⟨"key", []⟩
  call := { connections := fun _ => none, modelID := "m", callType := .text }
  policy := { maxAttempts := 1, retryOn := some [], backoff := ⟨0, 0⟩ }
  hasCache := true
  cacheMode := .cache
  parseURL := fun _ => none

def opening (cached : Except Fault (Option (CachedResult ℤ))) : Opening ℤ :=
  { Runtime.Sample.opening with
    prepared := .ok request, hashed := .ok operationHash, cached := cached }

def answer (output : Output) : ProviderResult ℤ where
  output := output
  accounting := emptyLedger
  providerDispatched := true

def round (output : Output) : Round ℤ :=
  { Runtime.Sample.round (answer output) none with
    prepared := .error .canceled, hashed := .error .canceled }

def target : ExecutionTarget := targetFromPrepared connection request

def result (output : Output) : CachedResult ℤ where
  providerResult := answer output
  producer := target
  generationTarget := target
  completedBy := .generation

theorem snapshot_target : validateTargetSnapshot target = none := by decide +kernel

/-- How a call ends for which the cache has this, and the provider that
output. -/
def ending (cached : Except Fault (Option (CachedResult ℤ))) (output : Output) : Ending ℤ :=
  (execute invocation (opening cached) fun _ => round output).getD ⟨zeroRecord, none, [], []⟩

theorem executed (cached : Except Fault (Option (CachedResult ℤ))) (output : Output) :
    execute invocation (opening cached) (fun _ => round output) = some (ending cached output) := by
  obtain ⟨e, he⟩ := execute_returns invocation (opening cached) fun _ => round output
  rw [ending, he]
  rfl

theorem keyed {cached : Except Fault (Option (CachedResult ℤ))} {output : Output} :
    HashesRequests digest id invocation (opening cached) fun _ => round output := by
  rintro p hash (⟨hp, hhash⟩ | ⟨n, hp, -⟩)
  · obtain rfl : request = p := Except.ok.inj hp
    obtain rfl : operationHash = hash := Except.ok.inj hhash
    exact ⟨operation, describes_request, hash_operation⟩
  · cases hp

/-- A call that got this output, and wrote it. -/
def entry (output : Output) (record : ResultRecord ℤ) (hnormal : Normal output)
    (hactions : ∃ before, (ending (.ok none) output).actions
      = before ++ [.store operationHash defaultVersion (result output)])
    (hwritten : set operationHash defaultVersion (result output) 0 = .ok record) :
    Entry ℤ digest id where
  inv := invocation
  opening := opening (.ok none)
  rounds := fun _ => round output
  ending := ending (.ok none) output
  executed := executed _ _
  hash := operationHash
  version := defaultVersion
  result := result output
  stored := by
    obtain ⟨before, hbefore⟩ := hactions
    rw [hbefore]
    exact List.mem_append_right _ (List.mem_singleton_self _)
  createdAt := 0
  record := record
  written := hwritten
  normal := hnormal
  requests := keyed
  named := ⟨snapshot_target, snapshot_target⟩

/-- The same call again, when the cache returns the result with this
output. -/
def replay (e : Entry ℤ digest id) (output : Output) (hinv : e.inv = invocation)
    (hhash : e.hash = operationHash) (hversion : e.version = defaultVersion)
    (hget : get (some e.record) e.hash e.version
      = .ok (some (replayed e.result output)))
    (hactions : ∃ before, (ending (.ok (some (replayed e.result output))) output).actions
      = before ++ [.lookup operationHash defaultVersion]) : Replay e where
  inv := invocation
  opening := opening (.ok (some (replayed e.result output)))
  rounds := fun _ => round output
  ending := ending (.ok (some (replayed e.result output))) output
  executed := executed _ _
  looked := by
    obtain ⟨before, hbefore⟩ := hactions
    rw [hbefore, hhash, hversion]
    exact List.mem_append_right _ (List.mem_singleton_self _)
  opened := fun _ => hget.symm
  rerun := fun _ h => by cases h
  requests := keyed
  schema := by rw [hinv]
  parseURL := by rw [hinv]

/-! A native object, which the cache keeps. -/

def answered : Json := .obj [("answer", .num "42")]

def objectRecord : ResultRecord ℤ :=
  newRecord operationHash defaultVersion (projection (result (.value answered)) answered) 0

def objectEntry : Entry ℤ digest id :=
  entry (.value answered) objectRecord
    ⟨rfl, by decide +kernel, fun h => (by cases h), fun s h => (by cases h)⟩ ⟨_, rfl⟩ rfl

theorem depth_answered : answered.depth < Json.maxNestingDepth := by decide +kernel

theorem get_objectEntry : get (some objectEntry.record) objectEntry.hash
    objectEntry.version = .ok (some (replayed objectEntry.result (.value answered))) := by
  obtain ⟨document, hdocument, hget⟩ := objectEntry.get_record
  have hdecode : decodeOutput document = some (.value answered) :=
    decodeOutput_document objectEntry.normal hdocument (fun h => by cases h)
      (fun _ _ h => by cases h) (fun v h => by cases h; exact depth_answered)
  rw [hget, hdecode]

def objectReplay : Replay objectEntry :=
  replay objectEntry (.value answered) rfl rfl rfl get_objectEntry ⟨_, rfl⟩

/-- Its replay is the fresh result again. -/
theorem faithful_iff_replayable_object :
    Replayable objectEntry objectReplay.inv ∧ Faithful objectEntry objectReplay := by
  have hr : Replayable objectEntry objectReplay.inv :=
    { untexted := rfl
      generic := fun _ _ h => by cases h
      shallow := fun v h => by cases h; exact depth_answered
      evidence := rfl
      producer := fun _ => by decide +kernel }
  exact ⟨hr, (faithful_iff_replayable digest_injective objectEntry objectReplay).2 hr⟩

/-! An answer that calls a tool. -/

def toolCall : AssistantToolCall where
  id := "call"
  type := "function"
  function := ⟨"search", "\x7b\x7d"⟩

def callingRecord : ResultRecord ℤ :=
  newRecord operationHash defaultVersion
    (projection (result (.assistant "" [toolCall])) (assistantDocument "" [toolCall])) 0

def callingEntry : Entry ℤ digest id :=
  entry (.assistant "" [toolCall]) callingRecord trivial ⟨_, rfl⟩ rfl

/-- What comes back is a plain object. -/
theorem get_callingEntry : get (some callingEntry.record) callingEntry.hash
    callingEntry.version = .ok (some (replayed callingEntry.result
      (.value (assistantDocument "" [toolCall]).canonical))) := by
  obtain ⟨document, hdocument, hget⟩ := callingEntry.get_record
  obtain rfl : assistantDocument "" [toolCall] = document := Option.some.inj hdocument
  rw [hget, decodeOutput_of_shallow (by decide +kernel) (by decide +kernel)]
  rfl

def callingReplay : Replay callingEntry :=
  replay callingEntry (.value (assistantDocument "" [toolCall]).canonical) rfl rfl rfl
    get_callingEntry ⟨_, rfl⟩

end Sample

open Sample

/-- **Tool calls do not survive the cache**: the chat answer that is built
from the hit calls nothing. -/
theorem tool_calls_lost : ¬ Faithful callingEntry callingReplay
    ∧ (chatResponse callingEntry.ending.record true).map (·.toolCalls)
      = some [⟨"call", toolCall.function⟩]
    ∧ (chatResponse callingReplay.ending.record true).map (·.toolCalls) = some [] := by
  have hfresh : (chatResponse callingEntry.ending.record true).map (·.toolCalls)
      = some [⟨"call", toolCall.function⟩] := rfl
  have hhit : (chatResponse callingReplay.ending.record true).map (·.toolCalls) = some [] :=
    rfl
  refine ⟨fun hf => ?_, hfresh, hhit⟩
  rw [hf.chat true, hfresh] at hhit
  cases hhit

end HardenLlm.Client
