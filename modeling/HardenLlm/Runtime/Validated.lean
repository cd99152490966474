import HardenLlm.Runtime.Steps
/-!
# Outputs are validated

Every way in which a run succeeds lies behind `admitResult`: an output it
returns was accepted, with its ledger, and validated for a structured call.
The search evidence beside the output is checked too where it came with
the output or from the cache. The recovery plan, though, keeps evidence
from whichever attempt returned some, and an accepted attempt without
evidence of its own leaves it in the record unchecked.
-/

namespace HardenLlm.Runtime

open List Option Planned

variable {A : Type} [Amounts A] {inv : Invocation A} {rounds : ℕ → Round A}
  {result : ProviderResult A} {w : PlannedWork A} {answer : Except Fault PreparedOperation}
  {target : Option RecoveryTarget} {o : Opening A} {number : ℕ}

/-- Evidence that is kept twice is kept once. -/
theorem or_or_self {α : Type} {x y : Option α} : x.or (x.or y) = x.or y := by
  rw [← Option.or_assoc, Option.or_self]

/-- **What a successful call returns**: an output, in order in every
respect. -/
structure Accepted (inv : Invocation A) (record : CallRecord A) : Prop where
  output : acceptedOutput record.output = true
  ledger : validateLedger record.accounting.result = none
  search : validateSearchResult inv.parseURL record.search = none
  structured : inv.call.callType = .structured →
    ∃ validate, inv.call.validateStructured = some validate ∧ validate record.output = none

/-- Nothing else in a record matters. -/
theorem accepted_congr {record record' : CallRecord A} (houtput : record.output = record'.output)
    (hledger : record.accounting.result = record'.accounting.result)
    (hsearch : record.search = record'.search) : Accepted inv record ↔ Accepted inv record' :=
  ⟨fun h => ⟨houtput ▸ h.output, hledger ▸ h.ledger, hsearch ▸ h.search, houtput ▸ h.structured⟩,
    fun h => ⟨houtput ▸ h.output, hledger ▸ h.ledger, hsearch ▸ h.search, houtput ▸ h.structured⟩⟩

/-- What `admitResult` checks. -/
theorem admitResult_eq_none {parseURL : String → Option URL} {callType : CallType}
    {validator : Option (Output → Option Fault)}
    (h : admitResult parseURL result callType validator = none) :
    validateLedger result.accounting = none ∧ acceptedOutput result.output = true
      ∧ validateSearchResult parseURL result.search = none
      ∧ (callType = .structured → ∃ validate, validator = some validate ∧ validate result.output = none)
    := by
  unfold admitResult at h
  split at h
  · cases h
  rename_i hledger
  split at h
  · cases h
  rename_i houtput
  split at h
  · cases h
  rename_i hsearch
  refine ⟨hledger, by simpa using houtput, by simpa using hsearch, fun hstructured => ?_⟩
  rw [if_pos hstructured] at h
  split at h
  · cases h
  · exact ⟨_, rfl, h⟩

/-- A cached result that was admitted. -/
theorem accepted_of_serves {record : CallRecord A} {cached : CachedResult A} {call : Call A}
    (hs : Serves record cached) (htype : call.callType = inv.call.callType)
    (hvalidator : call.validateStructured = inv.call.validateStructured)
    (h : admitResult inv.parseURL cached.providerResult call.callType call.validateStructured = none) :
    Accepted inv record := by
  obtain ⟨hledger, houtput, hsearch, hstructured⟩ := admitResult_eq_none h
  rw [htype, hvalidator] at hstructured
  exact ⟨by rw [hs.output]; exact houtput, by rw [hs.ledger]; exact hledger,
    by rw [hs.search]; exact hsearch, by rw [hs.output]; exact hstructured⟩

/-- The deferred end of a run leaves the answer alone. -/
theorem accepted_finish {run : RunState A} {err : Option Fault} {branch : Branch} {elapsed : ℤ}
    {last : RunState A → RunState A} :
    Accepted inv (run.finish inv err branch elapsed last).record ↔ Accepted inv run.record :=
  accepted_congr rfl rfl rfl

/-! ## The simple loop -/

namespace Simple

variable {s : State A} {r : Round A}

/-- An attempt without a failure returned a result that is admitted. -/
theorem admits_of_sound (h : (tried inv s r).failure = none) :
    admitResult inv.parseURL (tried inv s r).result inv.call.callType inv.call.validateStructured
      = none := by
  rw [tried_failure, or_eq_none_iff] at h
  rw [tried_result]
  have hjudged := h.2
  simp only [judge] at hjudged
  split at hjudged
  · cases hjudged
  split at hjudged
  · assumption
  · cases hjudged

/-- The record of an admitted result, as far as an answer shows it. -/
theorem accepted_admitted {run : RunState A} {target : ExecutionTarget}
    (hsearch : run.record.search = none)
    (h : admitResult inv.parseURL result inv.call.callType inv.call.validateStructured = none) :
    Accepted inv (admitted inv run r result number target).record := by
  obtain ⟨hledger, houtput, hvalid, hstructured⟩ := admitResult_eq_none h
  have hrecord : Accepted inv (run.record.succeed result number target) := by
    refine ⟨houtput, hledger, ?_, hstructured⟩
    rw [CallRecord.succeed, hsearch, or_none]
    exact hvalid
  unfold admitted
  dsimp only
  split
  · exact hrecord
  · exact { hrecord with }

/-- **A call without a plan returns nothing that was not validated.** -/
theorem run_accepted {e : Ending A} (h : run inv o rounds = some e) (herr : e.err = none) :
    Accepted inv e.record := by
  -- No evidence is in the record while the loop goes on.
  refine run_rule (Q := fun e => e.err = none → Accepted inv e.record)
    (fun _ s => s.run.record.search = none) ?_ ?_ ?_ ?_ h herr
  · intro r hstarts hnone
    cases hstarts with
    | failed | unserved => cases hnone
    | served prepared keyed answer admitted serves =>
      exact accepted_finish.2
        (accepted_of_serves serves rfl rfl (or_eq_none_iff.1 admitted).2)
  · intro s hstarts
    cases hstarts with
    | ready prepared requests consults actions accumulator search => exact search
  · intro n s s' hsearch hmoves
    cases hmoves with
    | retried failure retryable notLast actions accumulator search =>
      exact search.trans (tried_search.trans hsearch)
  · intro n s r hsearch hmoves hnone
    cases hmoves with
    | accepted sound =>
      exact accepted_finish.2
        (accepted_admitted (tried_search.trans hsearch) (admits_of_sound sound))
    | unattempted | terminal | gaveUp => cases hnone

end Simple

/-! ## The recovery plan -/

/-- The evidence most recently returned in the rounds before. -/
def evidence (rounds : ℕ → Round A) : ℕ → Option SearchResult
  | 0 => none
  | n + 1 => (rounds n).result.search.or (evidence rounds n)

/-- **Sound evidence**: an attempt that was accepted without evidence of
its own finds none before it, or evidence that is in order. -/
def SoundEvidence (inv : Invocation A) (rounds : ℕ → Round A) (actions : List (Action A)) : Prop :=
  ∀ x, .attempt x ∈ actions → x.failure = none → (rounds (x.number - 1)).result.search = none →
    validateSearchResult inv.parseURL (evidence rounds (x.number - 1)) = none

omit [Amounts A] in
/-- Where every attempt failed there is nothing to ask. -/
theorem soundEvidence_of_failed {actions : List (Action A)}
    (h : ∀ x, .attempt x ∈ actions → x.failure ≠ none) : SoundEvidence inv rounds actions :=
  fun x hx hnone => absurd hnone (h x hx)

/-- A call that is answered as the caller's is. -/
structure SameContract (inv : Invocation A) (call : Call A) : Prop where
  callType : call.callType = inv.call.callType
  validateStructured : call.validateStructured = inv.call.validateStructured

omit [Amounts A] in
theorem sameContract_baseCall (inv : Invocation A) : SameContract inv inv.baseCall := by
  unfold Invocation.baseCall
  split <;> exact ⟨rfl, rfl⟩

omit [Amounts A] in
theorem SameContract.leaf {call : Call A} (h : SameContract inv call) :
    SameContract inv (leafCall call target) :=
  ⟨leafCall_callType.trans h.callType, leafCall_validateStructured.trans h.validateStructured⟩

/-- Every stage of a branch is answered as the caller's call is. -/
structure PlannedWork.Kept (inv : Invocation A) (w : PlannedWork A) : Prop where
  call : SameContract inv w.call
  generation : SameContract inv w.generationCall

omit [Amounts A] in
/-- What `preparePlannedWork` returns is for the call it was given. -/
theorem kept_preparePlannedWork {selected : ResolvedConnection A} {call : Call A} {branch : Branch}
    {stage : Stage} {repair : Option RepairRequest} (hc : SameContract inv call)
    (h : (preparePlannedWork selected call branch stage target repair answer).work = .ok w) :
    w.Kept inv := by
  obtain ⟨binding, prepared, -, -, rfl⟩ := preparePlannedWork_work h
  have hleaf : SameContract inv (leafCall { call with repair := repair } target) :=
    SameContract.leaf ⟨hc.callType, hc.validateStructured⟩
  exact ⟨hleaf, ⟨hleaf.callType, hleaf.validateStructured⟩⟩

omit [Amounts A] in
theorem Prepares.kept {current : PlannedWork A} {history : List RepairHistoryEntry} {attempt : ℕ}
    {p : Prepared A} (hk : current.Kept inv) (h : Prepares inv current history attempt answer p)
    (hw : p.work = .ok w) : w.Kept inv := by
  have hbase := sameContract_baseCall inv
  cases h with
  | rerun => exact kept_preparePlannedWork ⟨hbase.callType, hbase.validateStructured⟩ hw
  | repair next repairs actions works =>
    obtain ⟨repair, hrepair, rfl⟩ := works w hw
    refine ⟨(kept_preparePlannedWork ?_ hrepair).call, hk.generation⟩
    unfold Invocation.repairCall
    split
    · exact ⟨hk.generation.callType, hk.generation.validateStructured⟩
    · exact ⟨hbase.callType, hbase.validateStructured⟩

namespace Planned

variable {s : State A} {r : Round A}

/-- The loop, as far as answers go: the record holds the evidence so far,
and every attempt failed. -/
structure Searching (inv : Invocation A) (rounds : ℕ → Round A) (n : ℕ) (s : State A) : Prop where
  attempt : s.attempt = n
  search : s.run.record.search = evidence rounds n
  failed : ∀ x, .attempt x ∈ s.run.actions → x.failure ≠ none
  kept : s.work.Kept inv

/-- An attempt without a failure returned a result that is admitted. -/
theorem admits_of_sound (hk : s.work.Kept inv) (h : (tried inv s r).verdict.failure = none) :
    admitResult inv.parseURL (tried inv s r).result inv.call.callType inv.call.validateStructured
      = none := by
  rw [tried_verdict] at h
  rw [tried_result, ← hk.call.callType, ← hk.call.validateStructured]
  simp only [judge] at h
  split at h
  · cases h
  split at h
  · assumption
  · cases h

theorem settled_search : (settled s r).result.search = r.result.search := rfl

/-- The record of an admitted result is an answer, if the evidence is. -/
theorem accepted_admitted {run : RunState A}
    (h : admitResult inv.parseURL result inv.call.callType inv.call.validateStructured = none) :
    Accepted inv (admitted inv run r w result number).record
      ↔ validateSearchResult inv.parseURL (result.search.or run.record.search) = none := by
  obtain ⟨hledger, houtput, -, hstructured⟩ := admitResult_eq_none h
  have hrecord : Accepted inv
      (run.record.succeed result number (targetFromPrepared w.connection w.prepared))
        ↔ validateSearchResult inv.parseURL (result.search.or run.record.search) = none :=
    ⟨fun ha => ha.search, fun hs => ⟨houtput, hledger, hs, hstructured⟩⟩
  rw [← hrecord]
  unfold admitted
  dsimp only
  split
  · exact accepted_congr rfl rfl rfl
  · split <;> exact accepted_congr rfl rfl rfl

/-- An attempt's failure is noted with it. -/
theorem failed_tried {f : Fault} (hfailed : ∀ x, .attempt x ∈ s.run.actions → x.failure ≠ none)
    (hf : (tried inv s r).verdict.failure = some f) (x : Execution A)
    (hx : .attempt x ∈ (tried inv s r).run.actions) : x.failure ≠ none := by
  rw [tried_actions, mem_append, mem_singleton] at hx
  rcases hx with hx | hx
  · exact hfailed x hx
  · cases hx
    simp [execution, hf]

omit [Amounts A] in
/-- Preparing and looking up add no attempt. -/
theorem failed_append {actions prepared looked : List (Action A)}
    (hfailed : ∀ x, .attempt x ∈ actions → x.failure ≠ none)
    (hquiet : Quiet prepared) (hlooked : Lookups looked) (x : Execution A)
    (hx : .attempt x ∈ actions ++ prepared ++ looked) : x.failure ≠ none := by
  rcases mem_append.1 hx with hx | hx
  · rcases mem_append.1 hx with hx | hx
    · exact hfailed x hx
    · exact absurd hx (hquiet.attempt_notMem x)
  · exact absurd hx (hlooked.quiet.attempt_notMem x)

/-- **An attempt that goes on** keeps what is known of the evidence. -/
theorem Searching.next {n : ℕ} {s' : State A} (h : Searching inv rounds n s)
    (hmoves : Moves inv s (rounds n) (.next s')) : Searching inv rounds (n + 1) s' := by
  have hevidence : (tried inv s (rounds n)).run.record.search = evidence rounds (n + 1) := by
    rw [tried_search, h.search]
    rfl
  cases hmoves with
  | retried left failure retryable syntactic actions accumulator search =>
    exact ⟨congrArg (· + 1) h.attempt, search.trans hevidence,
      actions ▸ failed_tried h.failed failure, h.kept⟩
  | advanced hash looked left failure semantic prepared ready consults actions accumulator search
      keyed =>
    have hprepares := prepareNextPlannedWork_prepares prepared
    have hkept := hprepares.kept h.kept ready
    refine ⟨congrArg (· + 1) h.attempt, search.trans hevidence, ?_, ⟨hkept.call, hkept.generation⟩⟩
    rw [actions]
    exact failed_append (failed_tried h.failed failure) hprepares.requests.quiet consults.lookups

omit [Amounts A] in
/-- Writing to the cache is no attempt. -/
theorem mem_admitted {run : RunState A} {x : Execution A} :
    .attempt x ∈ (admitted inv run r w result number).actions ↔ .attempt x ∈ run.actions := by
  obtain ⟨stored, hactions, hstored⟩ := admitted_actions inv run r w result number
  rw [hactions, mem_append, or_iff_left]
  intro hx
  obtain ⟨_, _, _, hstore⟩ := hstored _ hx
  cases hstore

/-- **An attempt that ends the run** answers with validated data exactly
if the evidence before it is sound. -/
theorem Searching.stop {n : ℕ} {stop : Stop A} (h : Searching inv rounds n s)
    (hmoves : Moves inv s (rounds n) (.stop stop)) :
    (stop.err = none → Accepted inv stop.run.record)
      ↔ SoundEvidence inv rounds stop.run.actions := by
  -- A run that stops with an error promises nothing, and no attempt of it was accepted.
  have herr {run : RunState A} {f : Fault} (ha : ∀ x, .attempt x ∈ run.actions → x.failure ≠ none) :
      (some f = none → Accepted inv run.record) ↔ SoundEvidence inv rounds run.actions :=
    ⟨fun _ => soundEvidence_of_failed ha, fun _ hnone => by cases hnone⟩
  cases hmoves with
  | unattempted actions => exact herr (actions ▸ h.failed)
  | interrupted allowed failure ended actions | terminal allowed failure active actions
  | gaveUp allowed failure retryable syntactic actions =>
    exact herr (actions ▸ failed_tried h.failed failure)
  | stalled looked left failure semantic prepared ready consults actions =>
    exact herr (actions ▸ failed_append (failed_tried h.failed failure)
      (prepareNextPlannedWork_prepares prepared).requests.quiet consults.lookups)
  | served left failure semantic prepared ready reruns keyed answer admitted serves actions =>
    have hbase := sameContract_baseCall inv
    refine ⟨fun _ => soundEvidence_of_failed ?_, fun _ _ => ?_⟩
    · rw [actions]
      exact failed_append (failed_tried h.failed failure)
        (prepareNextPlannedWork_prepares prepared).requests.quiet (lookups_singleton _ _)
    · exact accepted_of_serves serves hbase.callType hbase.validateStructured
        (or_eq_none_iff.1 admitted).2
  | accepted allowed sound =>
    have hadmits := admits_of_sound h.kept sound
    have hsearch : (tried inv s (rounds n)).result.search.or
        (tried inv s (rounds n)).run.record.search = evidence rounds (n + 1) := by
      rw [tried_search, tried_result, settled_search, h.search, or_or_self]
      rfl
    -- The answer is in order exactly if the evidence it is returned with is.
    have haccepted : Accepted inv (admitted inv (tried inv s (rounds n)).run (rounds n) s.work
        (tried inv s (rounds n)).result (s.attempt + 1)).record
          ↔ validateSearchResult inv.parseURL (evidence rounds (n + 1)) = none :=
      hsearch ▸ accepted_admitted hadmits
    have hnumber : (execution inv s (rounds n)).number - 1 = n := h.attempt
    constructor
    · intro hrecord x hx hnone hmissing
      rw [mem_admitted, tried_actions, mem_append, mem_singleton] at hx
      rcases hx with hx | hx
      · exact absurd hnone (h.failed x hx)
      · cases hx
        rw [hnumber] at hmissing ⊢
        have hvalid := haccepted.1 (hrecord rfl)
        rwa [evidence, hmissing, none_or] at hvalid
    · intro hsound _
      rw [haccepted, evidence]
      cases hmissing : (rounds n).result.search with
      | none =>
        have hlast : .attempt (execution inv s (rounds n)) ∈ (tried inv s (rounds n)).run.actions := by
          rw [tried_actions]
          exact mem_append_right _ (mem_singleton_self _)
        have hvalid := hsound _ (mem_admitted.2 hlast) sound
        rw [hnumber] at hvalid
        exact hvalid hmissing
      | some =>
        have hvalid := (admitResult_eq_none hadmits).2.2.1
        rw [tried_result, settled_search, hmissing] at hvalid
        exact hvalid

omit [Amounts A] in
/-- The generation's preparation is no attempt, nor are questions to the
cache. -/
theorem failed_generation {looked : List (Action A)} (hlooked : Lookups looked) (x : Execution A)
    (hx : .attempt x ∈ (generation inv o).actions ++ looked) : x.failure ≠ none :=
  absurd hx ((generation_requests.quiet.append hlooked.quiet).attempt_notMem x)

/-- **A run of the plan** answers with validated data exactly if the
evidence before its answer is sound. -/
theorem accepted_iff_soundEvidence {e : Ending A} (h : executeRecoveryPlan inv o rounds = some e) :
    (e.err = none → Accepted inv e.record) ↔ SoundEvidence inv rounds e.actions := by
  have hbase := sameContract_baseCall inv
  refine run_rule (Q := fun e => (e.err = none → Accepted inv e.record)
      ↔ SoundEvidence inv rounds e.actions) (Searching inv rounds) ?_ ?_ ?_ ?_ ?_ h
  · intro record f
    exact ⟨fun _ _ hx => absurd hx not_mem_nil, fun _ hnone => by cases hnone⟩
  · intro stop hstarts
    rw [close_actions]
    cases hstarts with
    | failed looked prepared stops consults actions =>
      exact ⟨fun _ => soundEvidence_of_failed (actions ▸ failed_generation consults.lookups),
        fun _ hnone => by cases hnone⟩
    | served prepared keyed answer admitted serves actions =>
      exact ⟨fun _ => soundEvidence_of_failed (actions ▸ failed_generation (lookups_singleton _ _)),
        fun _ _ => accepted_finish.2 (accepted_of_serves serves hbase.callType
          hbase.validateStructured (or_eq_none_iff.1 admitted).2)⟩
  · intro s hstarts
    cases hstarts with
    | ready hash looked valid prepared consults actions accumulator search =>
      have hkept := kept_preparePlannedWork hbase prepared
      exact ⟨rfl, search, actions ▸ failed_generation consults.lookups, ⟨hkept.call, hkept.generation⟩⟩
  · intro n s s' hi hmoves
    exact hi.next hmoves
  · intro n s stop hi hmoves
    rw [close_actions, ← hi.stop hmoves]
    exact imp_congr_right fun _ => accepted_finish

end Planned

/-- The call is carried out with a plan. -/
def Invocation.HasPlan (inv : Invocation A) : Prop :=
  inv.call.callType = .structured ∧ inv.policy.usesExplicitPlan = true

/-- **What a successful call returns is validated**, except that a call
with a plan may return evidence from an earlier attempt that was never
checked. -/
theorem validated_iff_soundEvidence (inv : Invocation A) (o : Opening A) (rounds : ℕ → Round A) :
    (∃ e, execute inv o rounds = some e ∧ ((e.err = none → Accepted inv e.record)
        ↔ (inv.HasPlan → SoundEvidence inv rounds e.actions)))
      ∧ ∃ e, executeRecoveryPlan inv o rounds = some e
        ∧ ((e.err = none → Accepted inv e.record) ↔ SoundEvidence inv rounds e.actions) := by
  constructor
  · obtain ⟨e, he⟩ := execute_returns inv o rounds
    refine ⟨e, he, ?_⟩
    have h := execute_executes inv o rounds
    rw [he] at h
    generalize hx : some e = x at h
    cases h with
    | refused =>
      cases hx
      exact ⟨fun _ _ _ hx => absurd hx not_mem_nil, fun _ hnone => by cases hnone⟩
    | planned valid structured explicit =>
      have hplan : inv.HasPlan := ⟨structured, explicit⟩
      simp only [hplan, true_imp_iff]
      exact Planned.accepted_iff_soundEvidence hx.symm
    | simple valid plain =>
      exact ⟨fun _ hplan => absurd hplan plain, fun _ => Simple.run_accepted hx.symm⟩
  · obtain ⟨e, he⟩ := run_returns inv o rounds
    exact ⟨e, he, Planned.accepted_iff_soundEvidence he⟩

/-! ### A generation that searched, and its repair -/

namespace Sample

def connection : Connection ℤ := { id := "primary", provider := "openai" }

/-- One repair, on the generation's own settings. -/
def repairing : Policy where
  maxAttempts := 2
  retryOn := some []
  backoff := ⟨0, 0⟩
  jsonRepair := some { initial := { source := .generation }, escalation := none }

def call : Call ℤ where
  connections := fun _ => none
  modelID := "m"
  callType := .structured
  webSearch := true
  validateStructured := some fun _ => none

def searching : Invocation ℤ where
  connection := connection
  credential := ⟨"key", []⟩
  call := call
  policy := repairing
  parseURL := fun _ => none

def prepared : PreparedOperation := ⟨{ protocol := "responses", endpointIdentity := "e", model := "m" }, false⟩

def opening : Opening ℤ where
  entry := ⟨none, 0⟩
  started := 0
  prepared := .ok prepared
  hashed := .ok ""
  cached := .ok none
  closed := 0

/-- A round in which nothing but the executor's answer matters. -/
def round (result : ProviderResult ℤ) (failure : Option Fault) : Round ℤ where
  entry := ⟨none, 0⟩
  started := 0
  result := result
  failure := failure
  finished := 0
  settled := ⟨none, 0⟩
  ended := 0
  prepared := .ok prepared
  hashed := .ok ""
  cached := .ok none
  planned := 0
  waitStarted := 0
  waitFinished := 0
  resumed := ⟨none, 0⟩

/-- Evidence without a list of sources. -/
def unlisted : SearchResult where
  mode := "native"
  executed := true
  sources := none
  costStatus := "unavailable"

/-- An answer that does not parse. -/
def unparsed : Fault := .bare { category := some .parse, code := "STRUCTURED_PARSE", rawResponse := "?" }

/-- The generation searched, but its answer does not parse; the repair
answers. -/
def repaired : ℕ → Round ℤ
  | 0 => round { accounting := emptyLedger, search := some unlisted, providerDispatched := true }
      (some unparsed)
  | _ => round { accounting := emptyLedger, output := .text "repaired", providerDispatched := true }
      none

end Sample

open Sample

/-- The repair's answer is returned with evidence that was never in
order. -/
theorem repaired_with_unlisted : ∃ e,
    execute searching opening repaired = some e ∧ e.err = none
      ∧ ¬ Accepted searching e.record := by
  have hrun : (execute searching opening repaired).map
      (fun e => (e.err.isNone, e.record.search)) = some (true, some unlisted) := by
    decide +kernel
  obtain ⟨e, he, hfields⟩ := map_eq_some_iff.1 hrun
  obtain ⟨herr, hsearch⟩ := Prod.mk.inj hfields
  refine ⟨e, he, isNone_iff_eq_none.1 herr, fun haccepted => ?_⟩
  have hvalid := haccepted.search
  rw [hsearch] at hvalid
  exact absurd hvalid (by decide)

end HardenLlm.Runtime
