import HardenLlm.Runtime.Steps.Simple
/-!
# What one attempt of a recovery plan does

The preparation of stages and the body of the plan's loop, inverted: how
an attempt can end, which stage follows it, and what it leaves in the
record and among the actions.
-/

namespace HardenLlm.Runtime

open List

variable {A : Type} {inv : Invocation A} {history : List RepairHistoryEntry}
  {answer : Except Fault PreparedOperation} {p : Prepared A}

/-! ## Preparing a stage -/

section Preparing

variable {selected binding : ResolvedConnection A} {call : Call A} {target : Option RecoveryTarget}
  {branch : Branch} {stage : Stage} {repair : Option RepairRequest}
  {answer : Except Fault PreparedOperation} {w : PlannedWork A}

/-- The work of a stage on this connection. -/
def plannedWork (binding : ResolvedConnection A) (call : Call A) (branch : Branch) (stage : Stage)
    (prepared : PreparedOperation) : PlannedWork A where
  call := call
  connection := binding.connection
  credential := binding.credential
  generationBinding := binding
  prepared := withCacheDomain prepared binding.connection
  generationCall := { call with repair := none }
  branch := branch
  stage := stage
  history := (call.repair.map (·.history)).getD []
  generationTarget := targetFromPrepared binding.connection (withCacheDomain prepared binding.connection)

@[simp] theorem leafCall_callType : (leafCall call target).callType = call.callType := by
  unfold leafCall
  split
  · rfl
  · split <;> rfl

@[simp] theorem leafCall_validateStructured :
    (leafCall call target).validateStructured = call.validateStructured := by
  unfold leafCall
  split
  · rfl
  · split <;> rfl

@[simp] theorem leafCall_repair : (leafCall call target).repair = call.repair := by
  unfold leafCall
  split
  · rfl
  · split <;> rfl

@[simp] theorem leafCall_webSearch : (leafCall call target).webSearch = call.webSearch := by
  unfold leafCall
  split
  · rfl
  · split <;> rfl

section

variable (h : (preparePlannedWork selected call branch stage target repair answer).work = .ok w)
include h

theorem preparePlannedWork_work :
    ∃ binding prepared, leafBinding selected call target = some binding ∧ answer = .ok prepared
      ∧ w = plannedWork binding (leafCall { call with repair := repair } target) branch stage prepared
    := by
  unfold preparePlannedWork at h
  dsimp only at h
  split at h
  · cases h
  rename_i binding hbinding
  cases answer with
  | error => cases h
  | ok prepared =>
    cases h
    refine ⟨binding, prepared, hbinding, rfl, ?_⟩
    simp [plannedWork]

/-- The work is of the stage it was prepared for. -/
theorem preparePlannedWork_identity :
    w.branch = branch ∧ w.stage = stage ∧ w.call.repair = repair
      ∧ w.history = (repair.map (·.history)).getD [] := by
  obtain ⟨binding, prepared, -, -, rfl⟩ := preparePlannedWork_work h
  refine ⟨rfl, rfl, leafCall_repair, ?_⟩
  rw [plannedWork, leafCall_repair]

end

/-- The executor is asked for a request, unless the leaf's connection is
not configured. -/
theorem preparePlannedWork_actions :
    (preparePlannedWork selected call branch stage target repair answer).actions
      = ((leafBinding selected call target).toList.map fun binding => .prepare
        ⟨branch, stage, binding.connection, binding.credential,
          leafCall { call with repair := repair } target⟩) := by
  unfold preparePlannedWork
  dsimp only
  split <;> rename_i hbinding <;> rw [hbinding] <;> rfl

theorem preparePlannedWork_requests :
    Requests (preparePlannedWork selected call branch stage target repair answer).actions := by
  rw [preparePlannedWork_actions]
  cases leafBinding selected call target with
  | none => exact requests_nil
  | some => exact requests_singleton _

end Preparing

/-- The generation of a branch is carried along. -/
def PlannedWork.carries (w current : PlannedWork A) : PlannedWork A :=
  { w with
    generationHash := current.generationHash
    generationTarget := current.generationTarget
    generationCall := current.generationCall
    generationBinding := current.generationBinding }

/-- What a repair is asked. -/
def Invocation.repairRequest (inv : Invocation A) (current : PlannedWork A) (stage : Stage)
    (history : List RepairHistoryEntry) (attempt : ℕ) : RepairRequest :=
  ⟨attempt + 1, inv.policy.maxAttempts, stage, current.branch, inv.baseCall.schema, history⟩

/-- Only the original branch is followed by a rerun. -/
theorem Policy.original_of_next {p : Policy} {branch : Branch} {stage : Stage}
    (h : nextPlannedStage p branch stage = some .rerunGenerate) : branch = .original := by
  cases branch with
  | original => rfl
  | rerun =>
    rcases hr : p.rerun.bind (·.jsonRepair) with _ | ⟨i, _ | e⟩ <;> cases stage <;>
      simp [nextPlannedStage, hr] at h

/-- The preparation of a rerun. -/
def Invocation.prepareRerun (inv : Invocation A) (answer : Except Fault PreparedOperation) :
    Prepared A :=
  preparePlannedWork inv.selected { inv.baseCall with repair := none } .rerun .rerunGenerate
    (inv.policy.leaf .rerunGenerate) none answer

/-- The preparation of a repair, in the branch of the work before. -/
def Invocation.prepareRepair (inv : Invocation A) (current : PlannedWork A) (stage : Stage)
    (history : List RepairHistoryEntry) (attempt : ℕ) (answer : Except Fault PreparedOperation) :
    Prepared A :=
  preparePlannedWork (inv.repairBinding current (inv.policy.leaf stage))
    (inv.repairCall current (inv.policy.leaf stage)) current.branch stage (inv.policy.leaf stage)
    (some (inv.repairRequest current stage history attempt)) answer

/-- **How the work after an answer that did not validate is prepared.** -/
inductive Prepares (inv : Invocation A) (current : PlannedWork A) (history : List RepairHistoryEntry)
    (attempt : ℕ) (answer : Except Fault PreparedOperation) : Prepared A → Prop
  | rerun (next : nextPlannedStage inv.policy current.branch current.stage = some .rerunGenerate) :
      Prepares inv current history attempt answer (inv.prepareRerun answer)
  | repair {stage : Stage} {p : Prepared A}
      (next : nextPlannedStage inv.policy current.branch current.stage = some stage)
      (repairs : stage ≠ .rerunGenerate)
      (actions : p.actions = (inv.prepareRepair current stage history attempt answer).actions)
      (works : ∀ w, p.work = .ok w → ∃ repair,
        (inv.prepareRepair current stage history attempt answer).work = .ok repair
          ∧ w = repair.carries current) :
      Prepares inv current history attempt answer p

theorem prepareNextPlannedWork_prepares {current : PlannedWork A} {attempt : ℕ}
    (h : inv.prepareNextPlannedWork current history attempt answer = some p) :
    Prepares inv current history attempt answer p := by
  unfold Invocation.prepareNextPlannedWork at h
  split at h
  · cases h
  · rename_i hnext
    cases h
    exact .rerun hnext
  · rename_i stage hrepairs hnext
    cases h
    refine .repair hnext (fun heq => hrepairs (heq ▸ rfl)) rfl fun w hw => ?_
    change Except.map _ (inv.prepareRepair current stage history attempt answer).work = _ at hw
    cases hwork : (inv.prepareRepair current stage history attempt answer).work with
    | error => simp [hwork, Except.map] at hw
    | ok repair =>
      rw [hwork] at hw
      cases hw
      exact ⟨repair, rfl, rfl⟩

/-- Preparing sends nothing. -/
theorem Prepares.requests {current : PlannedWork A} {attempt : ℕ}
    (h : Prepares inv current history attempt answer p) : Requests p.actions := by
  cases h with
  | rerun => exact preparePlannedWork_requests
  | repair next repairs actions => exact actions ▸ preparePlannedWork_requests

/-! ## The recovery plan -/

namespace Planned

variable [Amounts A] {s : State A} {r : Round A}

/-- The attempt's accounting. -/
def settled (s : State A) (r : Round A) : Settled A :=
  settle s.work.connection s.run.accumulator r.result r.failure

/-- The run while the executor streams. -/
def streaming (inv : Invocation A) (s : State A) (r : Round A) : RunState A :=
  r.streamed.foldl (fun run active => emit inv run s.work .progress (s.attempt + 1) active)
    (emit inv s.run s.work .progress s.attempt)

/-- The run that goes into an attempt. -/
def entering (inv : Invocation A) (s : State A) : State A :=
  { s with run := emit inv s.run s.work .progress s.attempt }

omit [Amounts A] in
theorem streaming_frame (inv : Invocation A) (s : State A) (r : Round A) {γ : Type*}
    {g : RunState A → γ} (h : ∀ run type n active, g (emit inv run s.work type n active) = g run) :
    g (streaming inv s r) = g s.run :=
  (foldl_frame (fun _ _ => h ..) _ _).trans (h ..)

theorem attempt_snd : (attempt inv (entering inv s) r).2 = settled s r := by
  have h := streaming_frame inv s r (g := RunState.accumulator) fun _ _ _ _ => emit_accumulator
  rw [settled, ← h]
  rfl

theorem attempt_actions : (attempt inv (entering inv s) r).1.actions = s.run.actions :=
  streaming_frame inv s r (g := RunState.actions) fun _ _ _ _ => emit_actions

theorem attempt_search : (attempt inv (entering inv s) r).1.record.search =
    r.result.search.or s.run.record.search :=
  congrArg (r.result.search.or ·) (streaming_frame inv s r (g := fun run => run.record.search)
    fun _ _ _ _ => congrArg _ emit_record)

theorem tried_result : (tried inv s r).result = (settled s r).result := by
  rw [← attempt_snd]
  rfl

theorem tried_verdict : (tried inv s r).verdict = judge inv s.work.call (settled s r) := by
  rw [← attempt_snd]
  rfl

theorem tried_classification :
    (tried inv s r).classification = planned inv s.work (tried inv s r).verdict.failure := rfl

/-- The attempt as it is noted among the actions. -/
def execution (inv : Invocation A) (s : State A) (r : Round A) : Execution A where
  number := s.attempt + 1
  branch := s.work.branch
  stage := s.work.stage
  connection := s.work.connection
  call := s.work.call
  prepared := s.work.prepared
  accumulator := s.run.accumulator
  output := r.result.output
  failure := (tried inv s r).verdict.failure

theorem tried_actions :
    (tried inv s r).run.actions = s.run.actions ++ [.attempt (execution inv s r)] := by
  rw [← attempt_actions]
  exact emit_actions

theorem executions_tried : executions (tried inv s r).run.actions
    = executions s.run.actions ++ [execution inv s r] := by
  rw [tried_actions, executions_append]
  rfl

theorem tried_search : (tried inv s r).run.record.search = r.result.search.or s.run.record.search :=
  (congrArg _ emit_record).trans
    ((capture_frame (g := CallRecord.search) (fun _ _ => rfl) ..).trans attempt_search)

/-- The record shows the text of the last attempt. -/
theorem tried_assistantText :
    (tried inv s r).run.record.assistantText = (tried inv s r).result.assistantText :=
  (congrArg _ emit_record).trans (capture_frame (g := CallRecord.assistantText) (fun _ _ => rfl) ..)

omit [Amounts A] in
/-- An accepted result is at most written to the cache. -/
theorem admitted_actions (inv : Invocation A) (run : RunState A) (r : Round A) (w : PlannedWork A)
    (result : ProviderResult A) (number : ℕ) : ∃ stored,
      (admitted inv run r w result number).actions = run.actions ++ stored
        ∧ Stores stored := by
  unfold admitted
  dsimp only
  split
  · exact ⟨[], (append_nil _).symm, fun a ha => absurd ha not_mem_nil⟩
  · split
    · exact ⟨_, rfl, fun a ha => ⟨_, _, _, mem_singleton.1 ha⟩⟩
    · exact ⟨_, rfl, fun a ha => ⟨_, _, _, mem_singleton.1 ha⟩⟩

omit [Amounts A] in
theorem executions_admitted {run : RunState A} {w : PlannedWork A} {result : ProviderResult A}
    {number : ℕ} : executions (admitted inv run r w result number).actions
      = executions run.actions := by
  obtain ⟨stored, hactions, hstored⟩ := admitted_actions inv run r w result number
  rw [hactions, executions_append, executions_stores hstored, append_nil]

/-- The answer of this attempt did not validate. -/
def Semantic (inv : Invocation A) (s : State A) (r : Round A) : Prop :=
  semanticParse (tried inv s r).verdict.failure (tried inv s r).classification = true

/-- The history the next stage is given. -/
def passed (inv : Invocation A) (s : State A) (r : Round A) (f : Fault) : List RepairHistoryEntry :=
  s.work.history ++
    [⟨s.work.stage, s.attempt + 1, (tried inv s r).verdict.previousOutput, boundedError f⟩]

/-- Preparing the next stage and asking for it adds no attempt. -/
theorem executions_advanced {actions : List (Action A)} {looked : List (Action A)} {attempt : ℕ}
    (hp : inv.prepareNextPlannedWork s.work history attempt r.prepared = some p)
    (hlooked : Lookups looked) (ha : actions = (tried inv s r).run.actions ++ p.actions ++ looked) :
    executions actions = executions s.run.actions ++ [execution inv s r] := by
  rw [ha, append_assoc, executions_append,
    executions_of_quiet ((prepareNextPlannedWork_prepares hp).requests.quiet.append hlooked.quiet),
    append_nil, executions_tried]

/-- What a cached result of the plan's caller is checked with. -/
def admission (inv : Invocation A) (target : ExecutionTarget) (c : CachedResult A) : Option Fault :=
  admitPlannedCachedResult inv.parseURL target c inv.baseCall

/-- **How an attempt of the plan can end.** -/
inductive Moves (inv : Invocation A) (s : State A) (r : Round A) :
    Turn (State A) (Stop A) → Prop
  /-- The context ended before, or no attempt was left. -/
  | unattempted {run : RunState A} {f : Fault} (actions : run.actions = s.run.actions) :
      Moves inv s r (.stop ⟨run, some s.work, some f⟩)
  | accepted (allowed : (s.attempt : ℤ) < inv.policy.maxAttempts)
      (sound : (tried inv s r).verdict.failure = none) :
      Moves inv s r (.stop ⟨admitted inv (tried inv s r).run r s.work (tried inv s r).result
        (s.attempt + 1), some s.work, none⟩)
  | interrupted {run : RunState A} {f e : Fault} (allowed : (s.attempt : ℤ) < inv.policy.maxAttempts)
      (failure : (tried inv s r).verdict.failure = some f)
      (ended : executionContextError inv.deadline r.settled = some e)
      (actions : run.actions = (tried inv s r).run.actions) :
      Moves inv s r (.stop ⟨run, some s.work, some e⟩)
  | terminal {run : RunState A} {f : Fault} (allowed : (s.attempt : ℤ) < inv.policy.maxAttempts)
      (failure : (tried inv s r).verdict.failure = some f)
      (active : executionContextError inv.deadline r.settled = none)
      (actions : run.actions = (tried inv s r).run.actions) :
      Moves inv s r (.stop ⟨run, some s.work, some f⟩)
  /-- A failure that is retried, but not in time. -/
  | gaveUp {run : RunState A} {f e : Fault} (allowed : (s.attempt : ℤ) < inv.policy.maxAttempts)
      (failure : (tried inv s r).verdict.failure = some f)
      (retryable : (tried inv s r).classification.retryable = true)
      (syntactic : ¬ Semantic inv s r) (actions : run.actions = (tried inv s r).run.actions) :
      Moves inv s r (.stop ⟨run, some s.work, some e⟩)
  | retried {run : RunState A} {f : Fault} (left : (s.attempt + 1 : ℤ) < inv.policy.maxAttempts)
      (failure : (tried inv s r).verdict.failure = some f)
      (retryable : (tried inv s r).classification.retryable = true)
      (syntactic : ¬ Semantic inv s r) (actions : run.actions = (tried inv s r).run.actions)
      (accumulator : run.accumulator = (tried inv s r).run.accumulator)
      (search : run.record.search = (tried inv s r).run.record.search) :
      Moves inv s r (.next ⟨run, s.attempt + 1, s.work, some s.work.stage, s.attempt + 1⟩)
  /-- The next stage is prepared, and the run stops there. -/
  | stalled {run : RunState A} {work : PlannedWork A} {f e : Fault} {p : Prepared A}
      {target : ExecutionTarget} (looked : List (Action A))
      (left : (s.attempt + 1 : ℤ) < inv.policy.maxAttempts)
      (failure : (tried inv s r).verdict.failure = some f) (semantic : Semantic inv s r)
      (prepared : inv.prepareNextPlannedWork s.work (passed inv s r f) (s.attempt + 1) r.prepared
        = some p)
      (ready : looked = [] ∨ ∃ next, p.work = .ok next ∧ next.branch ≠ s.work.branch
        ∧ next.generationTarget = target)
      (consults : Consults inv r.hashed r.cached (admission inv target) looked (some e))
      (actions : run.actions = (tried inv s r).run.actions ++ p.actions ++ looked) :
      Moves inv s r (.stop ⟨run, some work, some e⟩)
  /-- The rerun's answer was in the cache. -/
  | served {run : RunState A} {work : PlannedWork A} {f : Fault} {p : Prepared A}
      {next : PlannedWork A} {hash : String} {cached : CachedResult A}
      (left : (s.attempt + 1 : ℤ) < inv.policy.maxAttempts)
      (failure : (tried inv s r).verdict.failure = some f) (semantic : Semantic inv s r)
      (prepared : inv.prepareNextPlannedWork s.work (passed inv s r f) (s.attempt + 1) r.prepared
        = some p) (ready : p.work = .ok next) (reruns : next.branch ≠ s.work.branch)
      (keyed : r.hashed = .ok hash) (answer : r.cached = .ok (some cached))
      (admitted : admission inv next.generationTarget cached = none)
      (serves : Serves run.record cached)
      (actions : run.actions
        = (tried inv s r).run.actions ++ p.actions ++ [.lookup hash inv.version]) :
      Moves inv s r (.stop ⟨run, some work, none⟩)
  | advanced {run : RunState A} {f : Fault} {p : Prepared A} {next : PlannedWork A} (hash : String)
      (looked : List (Action A)) (left : (s.attempt + 1 : ℤ) < inv.policy.maxAttempts)
      (failure : (tried inv s r).verdict.failure = some f) (semantic : Semantic inv s r)
      (prepared : inv.prepareNextPlannedWork s.work (passed inv s r f) (s.attempt + 1) r.prepared
        = some p) (ready : p.work = .ok next)
      (consults : Consults inv r.hashed r.cached (admission inv next.generationTarget) looked none)
      (actions : run.actions = (tried inv s r).run.actions ++ p.actions ++ looked)
      (accumulator : run.accumulator = (tried inv s r).run.accumulator)
      (search : run.record.search = (tried inv s r).run.record.search)
      (keyed : if next.branch = s.work.branch then hash = next.generationHash
        else inv.cacheMode ≠ .off → r.hashed = .ok hash) :
      Moves inv s r (.next ⟨run, s.attempt + 1, { next with generationHash := hash },
        some s.work.stage, s.attempt + 1⟩)

/-- How the cache answers for a branch whose generation has this key. -/
inductive Reads (inv : Invocation A) (run : RunState A) (work : PlannedWork A)
    (hashed : Except Fault String) (cached : Except Fault (Option (CachedResult A))) :
    Turn (RunState A) (RunState A × Option Fault) → Prop
  | failed {run' : RunState A} {f : Fault} (looked : List (Action A))
      (consults : Consults inv hashed cached (admission inv work.generationTarget) looked (some f))
      (actions : run'.actions = run.actions ++ looked) :
      Reads inv run work hashed cached (.stop (run', some f))
  | served {run' : RunState A} {hash : String} {c : CachedResult A} (keyed : hashed = .ok hash)
      (answer : cached = .ok (some c)) (admitted : admission inv work.generationTarget c = none)
      (serves : Serves run'.record c)
      (actions : run'.actions = run.actions ++ [.lookup hash inv.version]) :
      Reads inv run work hashed cached (.stop (run', none))
  | missed {run' : RunState A} (looked : List (Action A))
      (consults : Consults inv hashed cached (admission inv work.generationTarget) looked none)
      (actions : run'.actions = run.actions ++ looked) (record : run'.record = run.record)
      (accumulator : run'.accumulator = run.accumulator) :
      Reads inv run work hashed cached (.next run')

theorem readCache_reads (inv : Invocation A) (run : RunState A) {work : PlannedWork A}
    {hashed : Except Fault String} (cached : Except Fault (Option (CachedResult A)))
    (hkeyed : hashed = .ok work.generationHash) :
    Reads inv run work hashed cached (readCache inv run work cached) := by
  unfold readCache
  split
  · exact .missed [] .idle (append_nil _).symm rfl rfl
  dsimp only
  split
  · exact .failed _ (.failed hkeyed rfl) rfl
  · exact .missed _ (.missed hkeyed rfl) rfl rfl rfl
  split
  · rename_i hrefused
    refine .failed _ (.refused hkeyed rfl ?_) rfl
    simp [admission, hrefused]
  · rename_i hadmitted
    exact .served hkeyed rfl hadmitted ⟨rfl, rfl, rfl, rfl, rfl, rfl⟩ rfl

/-- How a branch opens, with the work of its generation. -/
inductive Opens (inv : Invocation A) (run : RunState A) (next : PlannedWork A)
    (hashed : Except Fault String) (cached : Except Fault (Option (CachedResult A))) :
    Turn (RunState A × PlannedWork A) (Stop A) → Prop
  | failed {run' : RunState A} {work : PlannedWork A} {f : Fault} (looked : List (Action A))
      (consults : Consults inv hashed cached (admission inv next.generationTarget) looked (some f))
      (actions : run'.actions = run.actions ++ looked) :
      Opens inv run next hashed cached (.stop ⟨run', some work, some f⟩)
  | served {run' : RunState A} {work : PlannedWork A} {hash : String} {c : CachedResult A}
      (keyed : hashed = .ok hash) (answer : cached = .ok (some c))
      (admitted : admission inv next.generationTarget c = none) (serves : Serves run'.record c)
      (actions : run'.actions = run.actions ++ [.lookup hash inv.version]) :
      Opens inv run next hashed cached (.stop ⟨run', some work, none⟩)
  | missed {run' : RunState A} (hash : String) (looked : List (Action A))
      (consults : Consults inv hashed cached (admission inv next.generationTarget) looked none)
      (actions : run'.actions = run.actions ++ looked)
      (accumulator : run'.accumulator = run.accumulator)
      (search : run'.record.search = run.record.search)
      (keyed : inv.cacheMode ≠ .off → hashed = .ok hash) :
      Opens inv run next hashed cached (.next (run', { next with generationHash := hash }))

theorem openRerun_opens (inv : Invocation A) (run : RunState A) (work next : PlannedWork A)
    (r : Round A) : Opens inv run next r.hashed r.cached (openRerun inv run work next r) := by
  unfold openRerun
  dsimp only
  split
  · rename_i hoff
    exact .missed next.generationHash [] .idle (append_nil _).symm rfl rfl (absurd hoff)
  split
  · exact .failed [] .idle (append_nil _).symm
  rename_i hash hkeyed
  dsimp only [keyed]
  split <;> rename_i hread
  · have hreads := hread ▸ readCache_reads inv _ r.cached hkeyed
    cases hreads with
    | failed looked hconsults hactions => exact .failed looked hconsults hactions
    | served hhash hanswer hadmitted hserves hactions =>
      exact .served hhash hanswer hadmitted hserves hactions
  · have hreads := hread ▸ readCache_reads inv _ r.cached hkeyed
    cases hreads with
    | missed looked hconsults hactions hrecord hacc =>
      have hsearch := congrArg CallRecord.search hrecord
      exact .missed hash looked hconsults hactions hacc hsearch fun _ => hkeyed

section

variable {f : Fault} (hallowed : (s.attempt : ℤ) < inv.policy.maxAttempts)
  (hfailure : (tried inv s r).verdict.failure = some f)
  (hactive : executionContextError inv.deadline r.settled = none)
include hallowed hfailure hactive

/-- The last attempt that is allowed does not go on. -/
theorem advance_moves (hsem : Semantic inv s r) :
    Moves inv s r (advance inv s (tried inv s r).run (tried inv s r).verdict f r) := by
  unfold advance
  dsimp only
  split
  · exact .terminal hallowed hfailure hactive rfl
  rename_i hleft
  have hleft : (s.attempt + 1 : ℤ) < inv.policy.maxAttempts := by push_cast at hleft; omega
  split
  · exact .terminal hallowed hfailure hactive rfl
  rename_i p hp
  split
  · have hidle (e : Fault) : Consults inv r.hashed r.cached (admission inv s.work.generationTarget)
        [] (some e) := .idle
    exact .stalled [] hleft hfailure hsem hp (.inl rfl) (hidle _) (append_nil _).symm
  rename_i next hnext
  split <;> rename_i hopened
  · split at hopened
    · rename_i hreruns
      have hopens := hopened ▸ openRerun_opens inv _ s.work next r
      cases hopens with
      | failed looked hconsults hactions =>
        exact .stalled looked hleft hfailure hsem hp (.inr ⟨next, hnext, hreruns, rfl⟩) hconsults
          hactions
      | served hkeyed hanswer hadmitted hserves hactions =>
        exact .served hleft hfailure hsem hp hnext hreruns hkeyed hanswer hadmitted hserves hactions
    · cases hopened
  · split at hopened
    · rename_i hreruns
      have hopens := hopened ▸ openRerun_opens inv _ s.work next r
      cases hopens with
      | missed hash looked hconsults hactions hacc hsearch =>
        exact .advanced hash looked hleft hfailure hsem hp hnext hconsults hactions hacc hsearch
          (by rwa [if_neg hreruns])
    · rename_i hsame
      cases hopened
      exact .advanced next.generationHash [] hleft hfailure hsem hp hnext .idle
        (append_nil _).symm rfl rfl (by rw [if_pos (not_not.1 hsame)])

theorem retry_moves (hsyn : ¬ Semantic inv s r)
    (hretry : (tried inv s r).classification.retryable = true) :
    Moves inv s r (retry inv s (tried inv s r).run f (tried inv s r).classification r) := by
  unfold retry
  dsimp only
  split
  · exact .terminal hallowed hfailure hactive rfl
  rename_i hleft
  have hleft : (s.attempt + 1 : ℤ) < inv.policy.maxAttempts := by push_cast at hleft; omega
  split
  · exact .gaveUp hallowed hfailure hretry hsyn rfl
  split
  · exact .gaveUp hallowed hfailure hretry hsyn rfl
  · exact .retried hleft hfailure hretry hsyn rfl rfl rfl

end

theorem body_moves (inv : Invocation A) (s : State A) (r : Round A) :
    Moves inv s r (body inv s r) := by
  unfold body
  dsimp only
  split
  · exact .unattempted emit_actions
  split
  · exact .unattempted emit_actions
  rename_i hallowed
  have hallowed : (s.attempt : ℤ) < inv.policy.maxAttempts := by omega
  split
  · rename_i hsound
    exact .accepted hallowed hsound
  rename_i f hfailure
  split
  · rename_i e hended
    exact .interrupted hallowed hfailure hended rfl
  rename_i hactive
  split
  · rename_i hsem
    exact advance_moves hallowed hfailure hactive hsem
  rename_i hsyn
  split
  · exact .terminal hallowed hfailure hactive rfl
  · rename_i hretry
    exact retry_moves hallowed hfailure hactive hsyn (by simpa using hretry)

/-! ### Before the first attempt -/

/-- The original generation, prepared. -/
def generation (inv : Invocation A) (o : Opening A) : Prepared A :=
  preparePlannedWork inv.selected inv.baseCall .original .originalGenerate none none o.prepared

variable {o : Opening A}

omit [Amounts A] in
theorem generation_requests : Requests (generation inv o).actions :=
  preparePlannedWork_requests

omit [Amounts A] in
/-- Nothing is attempted before the loop. -/
theorem executions_generation {looked : List (Action A)} (h : Lookups looked) :
    executions ((generation inv o).actions ++ looked) = [] :=
  executions_of_quiet (generation_requests.quiet.append h.quiet)

/-- **How a run of the plan can begin.** -/
inductive Starts (inv : Invocation A) (o : Opening A) : Turn (State A) (Stop A) → Prop
  | failed {run : RunState A} {work : Option (PlannedWork A)} {f : Fault}
      {target : ExecutionTarget} (looked : List (Action A))
      (prepared : looked = [] ∨ ∃ w, (generation inv o).work = .ok w ∧ w.generationTarget = target)
      {stop : Option Fault} (stops : looked = [] ∨ stop = none ∨ stop = some f)
      (consults : Consults inv o.hashed o.cached (admission inv target) looked stop)
      (actions : run.actions = (generation inv o).actions ++ looked) :
      Starts inv o (.stop ⟨run, work, some f⟩)
  | served {run : RunState A} {w : PlannedWork A} {work : Option (PlannedWork A)} {hash : String}
      {cached : CachedResult A} (prepared : (generation inv o).work = .ok w)
      (keyed : o.hashed = .ok hash) (answer : o.cached = .ok (some cached))
      (admitted : admission inv w.generationTarget cached = none)
      (serves : Serves run.record cached)
      (actions : run.actions = (generation inv o).actions ++ [.lookup hash inv.version]) :
      Starts inv o (.stop ⟨run, work, none⟩)
  | ready {run : RunState A} {w : PlannedWork A} (hash : String) (looked : List (Action A))
      (valid : validateRecoveryTargets inv.policy = none) (prepared : (generation inv o).work = .ok w)
      (consults : Consults inv o.hashed o.cached (admission inv w.generationTarget) looked none)
      (actions : run.actions = (generation inv o).actions ++ looked)
      (accumulator : run.accumulator = newProviderAccumulator) (search : run.record.search = none)
      (keyed : inv.cacheMode ≠ .off → o.hashed = .ok hash) :
      Starts inv o (.next { run := run, attempt := 0, work := { w with generationHash := hash } })

/-- The same for its cache. -/
theorem openOriginal_opens (inv : Invocation A) (run : RunState A) (work : PlannedWork A)
    (o : Opening A) : Opens inv run work o.hashed o.cached (openOriginal inv run work o) := by
  unfold openOriginal
  split
  · rename_i hoff
    exact .missed work.generationHash [] .idle (by simp [emit]) emit_accumulator
      (congrArg _ emit_record) (absurd hoff)
  split
  · exact .failed [] .idle (append_nil _).symm
  rename_i hash hkeyed
  dsimp only [keyed]
  split <;> rename_i hread
  · have hreads := hread ▸ readCache_reads inv _ o.cached hkeyed
    cases hreads with
    | failed looked hconsults hactions =>
      exact .failed looked hconsults (hactions.trans (congrArg (· ++ _) emit_actions))
    | served hhash hanswer hadmitted hserves hactions =>
      exact .served hhash hanswer hadmitted hserves
        (hactions.trans (congrArg (· ++ _) emit_actions))
  · have hreads := hread ▸ readCache_reads inv _ o.cached hkeyed
    cases hreads with
    | missed looked hconsults hactions hrecord hacc =>
      have hsearch := congrArg CallRecord.search (hrecord.trans emit_record)
      exact .missed hash looked hconsults (hactions.trans (congrArg (· ++ _) emit_actions))
        (hacc.trans emit_accumulator) hsearch fun _ => hkeyed

theorem start_starts (inv : Invocation A) (o : Opening A) : Starts inv o (start inv o) := by
  unfold start
  dsimp only
  split
  · have hidle : Consults inv o.hashed o.cached (admission inv inv.newRecord.generationTarget)
        [] none := .idle
    exact .failed [] (.inl rfl) (.inl rfl) hidle (append_nil _).symm
  rename_i w hw
  split <;> rename_i hopened
  · have hopens := hopened ▸ openOriginal_opens inv _ w o
    cases hopens with
    | failed looked hconsults hactions =>
      exact .failed looked (.inr ⟨w, hw, rfl⟩) (.inr (.inr rfl)) hconsults hactions
    | served hkeyed hanswer hadmitted hserves hactions =>
      exact .served hw hkeyed hanswer hadmitted hserves hactions
  · have hopens := hopened ▸ openOriginal_opens inv _ w o
    cases hopens with
    | missed hash looked hconsults hactions hacc hsearch hkeyed =>
      split
      · exact .failed looked (.inr ⟨w, hw, rfl⟩) (.inr (.inl rfl)) hconsults hactions
      · rename_i hvalid
        exact .ready hash looked hvalid hw hconsults hactions hacc
          (hsearch.trans (timedRecord_search _)) hkeyed

/-- **Runs of the plan**, refused or not. -/
theorem run_rule {rounds : ℕ → Round A} {e : Ending A} {Q : Ending A → Prop}
    (I : ℕ → State A → Prop)
    (hrefused : ∀ record f, Q ⟨record, some f, [], []⟩)
    (hstopped : ∀ stop, Starts inv o (.stop stop) → Q (close inv o stop))
    (hstart : ∀ s, Starts inv o (.next s) → I 0 s)
    (hnext : ∀ n s s', I n s → Moves inv s (rounds n) (.next s') → I (n + 1) s')
    (hstop : ∀ n s stop, I n s → Moves inv s (rounds n) (.stop stop) → Q (close inv o stop))
    (h : executeRecoveryPlan inv o rounds = some e) : Q e := by
  unfold executeRecoveryPlan at h
  dsimp only at h
  -- Each of the four checks refuses.
  iterate 4
    split at h
    · cases h
      exact hrefused _ _
  have hstarts := start_starts inv o
  split at h <;> rename_i hopened <;> rw [hopened] at hstarts
  · cases h
    exact hstopped _ hstarts
  · obtain ⟨stop, hs, rfl⟩ := Option.map_eq_some_iff.1 h
    exact Loop.run_rule (Q := fun stop => Q (close inv o stop))
      (fun n s s' hs hbody => hnext n s s' hs (hbody ▸ body_moves inv s _))
      (fun n s stop hs hbody => hstop n s stop hs (hbody ▸ body_moves inv s _)) (hstart _ hstarts) hs

/-- Every attempt that goes on leaves fewer for the rest. -/
theorem run_returns (inv : Invocation A) (o : Opening A) (rounds : ℕ → Round A) :
    ∃ e, executeRecoveryPlan inv o rounds = some e := by
  unfold executeRecoveryPlan
  dsimp only
  iterate 5
    split
    · exact ⟨_, rfl⟩
  rename_i s hstart
  have hstarts := hstart ▸ start_starts inv o
  have hzero : s.attempt = 0 := by
    cases hstarts with
    | ready => rfl
  have hloop : ∃ stop,
      Loop.run (body inv) rounds (inv.policy.maxAttempts.toNat + 2) 0 s = some stop := by
    refine Loop.run_returns (I := fun _ _ => True)
      (v := fun s => (inv.policy.maxAttempts - s.attempt).toNat) ?_ trivial (by omega)
    intro n s s' _ hbody
    have hmoves := hbody ▸ body_moves inv s (rounds n)
    refine ⟨trivial, ?_⟩
    cases hmoves with
    | retried | advanced =>
      dsimp only
      omega
  obtain ⟨stop, hs⟩ := hloop
  exact ⟨_, Option.map_eq_some_iff.2 ⟨stop, hs, rfl⟩⟩

omit [Amounts A] in
/-- The last event is no action. -/
theorem close_actions {stop : Stop A} : (close inv o stop).actions = stop.run.actions := by
  unfold close RunState.finish
  dsimp only
  split
  · rfl
  · exact emit_actions

end Planned

end HardenLlm.Runtime
