import HardenLlm.Runtime.Steps
import Mathlib.Data.List.Infix
import Mathlib.Data.List.Chain
import Mathlib.Data.List.TakeWhile
/-!
# The stages of a recovery

What a recovery plan is for: the stages the plan has, in their order, and
a run through them. A stage is left only when its answer did not
validate, and then for the next one of the plan; a repair is shown
exactly the answers its branch has failed with before. Every run of the
loop goes this way.
-/

namespace HardenLlm.Runtime

open List Planned

variable {A : Type}

/-! ## The plan -/

/-- The branch a stage belongs to. -/
def Stage.branch : Stage → Branch
  | .originalGenerate | .originalRepairInitial | .originalRepairEscalate => .original
  | .rerunGenerate | .rerunRepairInitial | .rerunRepairEscalate => .rerun

/-- All stages, in their order. -/
def Stage.order : List Stage :=
  [.originalGenerate, .originalRepairInitial, .originalRepairEscalate, .rerunGenerate,
    .rerunRepairInitial, .rerunRepairEscalate]

namespace Policy

variable (p : Policy)

/-- **The stages of the plan**: the generation, and those it has a leaf
for. -/
def stages : List Stage :=
  Stage.order.filter fun stage => stage = .originalGenerate || (p.leaf stage).isSome

/-- The plan's stages before this one, in its branch. -/
def before (stage : Stage) : List Stage :=
  (p.stages.filter fun s => s.branch = stage.branch).takeWhile (· ≠ stage)

variable {p} {stage next : Stage}

/-- A branch opens with its generation. -/
theorem before_generate (h : stage = .originalGenerate ∨ stage = .rerunGenerate) :
    p.before stage = [] := by
  unfold before stages
  rcases hj : p.jsonRepair with _ | ⟨i, _ | e⟩ <;>
    rcases hr : p.rerun with _ | ⟨t, _ | ⟨i, _ | e⟩⟩ <;> rcases h with rfl | rfl <;>
    simp [Stage.order, leaf, hj, hr, Stage.branch]

theorem notMem_before : stage ∉ p.before stage := fun h => by
  simpa using mem_takeWhile_imp h

section

variable (hin : stage ∈ p.stages) (h : nextPlannedStage p stage.branch stage = some next)
include hin h

/-- **The next stage is the next one of the plan.** -/
theorem infix_of_next : [stage, next] <:+: p.stages := by
  unfold stages at hin ⊢
  rcases hj : p.jsonRepair with _ | ⟨i, _ | e⟩ <;>
    rcases hr : p.rerun with _ | ⟨t, _ | ⟨i, _ | e⟩⟩ <;> cases stage <;>
    simp [nextPlannedStage, Stage.branch, hj, hr] at h <;> subst h <;>
    simp [Stage.order, leaf, hj, hr] at hin ⊢ <;> decide

theorem mem_of_next : next ∈ p.stages :=
  (infix_of_next hin h).subset (mem_cons_of_mem _ (mem_singleton_self _))

end

/-- Nothing is followed by the original generation. -/
theorem next_ne_originalGenerate (h : nextPlannedStage p stage.branch stage = some next) :
    next ≠ .originalGenerate := by
  rintro rfl
  unfold nextPlannedStage at h
  cases stage <;> simp only [Stage.branch] at h <;> split at h <;> simp at h

/-- A repair comes after everything its branch has done. -/
theorem before_of_next (h : nextPlannedStage p stage.branch stage = some next)
    (hrepair : next ≠ .rerunGenerate) :
    next.branch = stage.branch ∧ p.before next = p.before stage ++ [stage] := by
  unfold before stages
  rcases hj : p.jsonRepair with _ | ⟨i, _ | e⟩ <;>
    rcases hr : p.rerun with _ | ⟨t, _ | ⟨i, _ | e⟩⟩ <;> cases stage <;>
    simp [nextPlannedStage, Stage.branch, hj, hr] at h <;> subst h <;>
    first | exact absurd rfl hrepair | simp [Stage.order, leaf, hj, hr, Stage.branch]

end Policy

/-! ## Runs through the plan -/

namespace Execution

variable (x : Execution A)

/-- The answer did not validate. -/
def semantic (policy : Policy) : Bool := semanticParse x.failure (classify x.failure policy)

/-- The answer an attempt failed with: the response that did not parse, or
else the output. -/
def failingOutput : String := (parseFailureResponse x.failure).getD (encodeRepairOutput x.output)

/-- What a repair is shown of an attempt. -/
def entry : RepairHistoryEntry :=
  ⟨x.stage, x.number, x.failingOutput, (x.failure.map boundedError).getD ""⟩

/-- The failures an attempt was shown. -/
def history : List RepairHistoryEntry := (x.call.repair.map (·.history)).getD []

/-- The same request. -/
structure Repeats (y : Execution A) : Prop where
  branch : y.branch = x.branch
  stage : y.stage = x.stage
  connection : y.connection = x.connection
  call : y.call = x.call
  prepared : y.prepared = x.prepared

end Execution

/-- **How one attempt follows another**: the same request after a failure
that may be retried, the plan's next stage after an answer that did not
validate. -/
inductive Follows (inv : Invocation A) (x y : Execution A) : Prop
  | retried (syntactic : x.semantic inv.policy = false)
      (retryable : (classify x.failure inv.policy).retryable = true) (same : x.Repeats y)
  | advanced (semantic : x.semantic inv.policy = true)
      (next : [x.stage, y.stage] <:+: inv.policy.stages)

/-- **What an attempt was shown** of those before it: one entry for every
earlier stage of its branch, in order. -/
structure Informed (inv : Invocation A) (before : List (Execution A)) (y : Execution A) : Prop where
  entries : y.history =
    (before.filter fun x => x.branch = y.branch && x.semantic inv.policy).map (·.entry)
  planned : y.history.map (·.stage) = inv.policy.before y.stage
  executed : ∀ stage, stage ∈ y.history.map (·.stage)
    ↔ stage ≠ y.stage ∧ ∃ x ∈ before, x.branch = y.branch ∧ x.stage = stage

/-- An attempt that may come after these. -/
structure Continues (inv : Invocation A) (before : List (Execution A)) (y : Execution A) : Prop where
  number : y.number = before.length + 1
  branch : y.branch = y.stage.branch
  first : before = [] → y.stage = .originalGenerate
  follows : ∀ x ∈ before.getLast?, Follows inv x y
  informed : Informed inv before y
  repairs : y.call.repair.isSome ↔ y.stage ≠ .originalGenerate ∧ y.stage ≠ .rerunGenerate

/-- **A disciplined run.** -/
structure Disciplined (inv : Invocation A) (runs : List (Execution A)) : Prop where
  budget : (runs.length : ℤ) ≤ max inv.policy.maxAttempts 0
  path : Logged (Continues inv) runs

/-! ### One attempt more -/

section Executions

variable {inv : Invocation A} {before : List (Execution A)} {x y : Execution A}

/-- The first attempt. -/
theorem continues_nil (hnumber : y.number = 1) (hbranch : y.branch = .original)
    (hstage : y.stage = .originalGenerate) (hnone : y.call.repair = none) : Continues inv [] y := by
  have hhistory : y.history = [] := by rw [Execution.history, hnone]; rfl
  refine ⟨hnumber, by rw [hbranch, hstage]; rfl, fun _ => hstage,
    fun x hx => absurd hx (by simp), ⟨hhistory, ?_, fun stage => ?_⟩, by simp [hnone, hstage]⟩
  · rw [hhistory, hstage, Policy.before_generate (.inl rfl)]
    rfl
  · simp [hhistory]

/-- The same request again. -/
theorem Continues.retry (h : Continues inv before x) (hsyntactic : x.semantic inv.policy = false)
    (hretryable : (classify x.failure inv.policy).retryable = true) (hsame : x.Repeats y)
    (hnumber : y.number = x.number + 1) : Continues inv (before ++ [x]) y := by
  have hhistory : y.history = x.history := by rw [Execution.history, hsame.call]; rfl
  refine ⟨by simp [hnumber, h.number], by rw [hsame.branch, hsame.stage]; exact h.branch,
    fun hnil => absurd hnil (by simp), ?_, ⟨?_, ?_, fun stage => ?_⟩, ?_⟩
  · intro z hz
    rw [List.getLast?_concat, Option.mem_some_iff] at hz
    subst hz
    exact .retried hsyntactic hretryable hsame
  · rw [hhistory, h.informed.entries, hsame.branch]
    simp [filter_append, hsyntactic]
  · rw [hhistory, hsame.stage]
    exact h.informed.planned
  · rw [hhistory, h.informed.executed, hsame.stage, hsame.branch]
    -- The attempt adds only its own stage, which is not an earlier one.
    refine and_congr_right fun hne => ⟨fun ⟨z, hz, hb, hs⟩ => ⟨z, by simp [hz], hb, hs⟩, ?_⟩
    rintro ⟨z, hz, hb, hs⟩
    rcases mem_append.1 hz with hz | hz
    · exact ⟨z, hz, hb, hs⟩
    · rw [mem_singleton.1 hz] at hs
      exact absurd hs.symm hne
  · rw [hsame.call, hsame.stage]
    exact h.repairs

/-- A repair, after an answer of its branch that did not validate. -/
theorem Continues.repair (h : Continues inv before x) (hin : x.stage ∈ inv.policy.stages)
    (hsemantic : x.semantic inv.policy = true)
    (hnext : nextPlannedStage inv.policy x.branch x.stage = some y.stage)
    (hrepairs : y.stage ≠ .rerunGenerate) (hbranch : y.branch = x.branch)
    (hhistory : y.history = x.history ++ [x.entry]) (hsome : y.call.repair.isSome)
    (hnumber : y.number = x.number + 1) : Continues inv (before ++ [x]) y := by
  rw [h.branch] at hnext
  obtain ⟨hsame, hplan⟩ := Policy.before_of_next hnext hrepairs
  have hstages : y.history.map (·.stage) = inv.policy.before y.stage := by
    rw [hplan, hhistory, map_append, h.informed.planned]
    rfl
  have hnot : y.stage ∉ y.history.map (·.stage) := hstages ▸ Policy.notMem_before
  have horiginal := Policy.next_ne_originalGenerate hnext
  refine ⟨by simp [hnumber, h.number], by rw [hbranch, h.branch, hsame],
    fun hnil => absurd hnil (by simp), ?_, ⟨?_, hstages, fun stage => ?_⟩, by simp [*]⟩
  · intro z hz
    rw [List.getLast?_concat, Option.mem_some_iff] at hz
    subst hz
    exact .advanced hsemantic (Policy.infix_of_next hin hnext)
  · rw [hhistory, h.informed.entries, hbranch]
    simp [filter_append, hsemantic]
  · constructor
    · intro hmem
      refine ⟨fun heq => hnot (heq ▸ hmem), ?_⟩
      rw [hhistory, map_append, mem_append, h.informed.executed] at hmem
      rcases hmem with ⟨-, z, hz, hb, hs⟩ | hmem
      · exact ⟨z, by simp [hz], hb.trans hbranch.symm, hs⟩
      · exact ⟨x, by simp, hbranch.symm, (mem_singleton.1 hmem).symm⟩
    · rintro ⟨-, z, hz, hb, hs⟩
      rw [hhistory, map_append, mem_append, h.informed.executed]
      by_cases hstage : stage = x.stage
      · exact .inr (by simp [hstage, Execution.entry])
      · refine .inl ⟨hstage, ?_⟩
        rcases mem_append.1 hz with hz | hz
        · exact ⟨z, hz, hb.trans hbranch, hs⟩
        · rw [mem_singleton.1 hz] at hs
          exact absurd hs.symm hstage

/-- The rerun, which is shown nothing. -/
theorem Continues.rerun (h : Continues inv before x) (hin : x.stage ∈ inv.policy.stages)
    (horiginal : ∀ z ∈ before, z.branch = .original) (hsemantic : x.semantic inv.policy = true)
    (hnext : nextPlannedStage inv.policy x.branch x.stage = some .rerunGenerate)
    (hstage : y.stage = .rerunGenerate) (hbranch : y.branch = .rerun)
    (hnone : y.call.repair = none) (hnumber : y.number = x.number + 1) :
    Continues inv (before ++ [x]) y := by
  have hhistory : y.history = [] := by rw [Execution.history, hnone]; rfl
  have hall : ∀ z ∈ before ++ [x], z.branch ≠ y.branch := by
    intro z hz
    rw [hbranch]
    rcases mem_append.1 hz with hz | hz
    · simp [horiginal z hz]
    · simp [mem_singleton.1 hz, Policy.original_of_next hnext]
  rw [h.branch] at hnext
  refine ⟨by simp [hnumber, h.number], by rw [hbranch, hstage]; rfl,
    fun hnil => absurd hnil (by simp), ?_, ⟨?_, ?_, fun stage => ?_⟩, by simp [hnone, hstage]⟩
  · intro z hz
    rw [List.getLast?_concat, Option.mem_some_iff] at hz
    subst hz
    rw [← hstage] at hnext
    exact .advanced hsemantic (Policy.infix_of_next hin hnext)
  · rw [hhistory, filter_eq_nil_iff.2 fun z hz => by simp [hall z hz], map_nil]
  · rw [hhistory, hstage, Policy.before_generate (.inr rfl), map_nil]
  · rw [hhistory]
    simp only [map_nil, not_mem_nil, false_iff]
    rintro ⟨-, z, hz, hb, -⟩
    exact hall z hz hb

end Executions

/-! ## The loop keeps to the plan -/

namespace Planned

variable [Amounts A] {inv : Invocation A} {s : State A} {r : Round A} {looked : List (Action A)}

theorem semantic_execution :
    (execution inv s r).semantic inv.policy = true ↔ Semantic inv s r := Iff.rfl

/-- A failure that is not of the answer is retried as the policy says. -/
theorem retryable_execution (h : (tried inv s r).classification.retryable = true)
    (hs : ¬ Semantic inv s r) :
    (classify (execution inv s r).failure inv.policy).retryable = true := by
  have hsyntactic : semanticParse (tried inv s r).verdict.failure
      (classify (tried inv s r).verdict.failure inv.policy) = false := Bool.eq_false_iff.2 hs
  rw [tried_classification, planned, hsyntactic] at h
  change (classify (tried inv s r).verdict.failure inv.policy).retryable = true
  simpa using h

/-- The entry for an attempt is what the next stage is shown of it. -/
theorem passed_eq {f : Fault} (hf : (tried inv s r).verdict.failure = some f) :
    passed inv s r f = s.work.history ++ [(execution inv s r).entry] := by
  have houtput : (tried inv s r).verdict.previousOutput = (execution inv s r).failingOutput := by
    rw [Execution.failingOutput, execution, tried_verdict]
    rfl
  rw [passed, houtput, Execution.entry, execution, hf]
  rfl

/-- **The loop keeps to the plan**: what was attempted is disciplined, and
so is the stage under way. -/
structure OnPath (inv : Invocation A) (s : State A) : Prop where
  budget : (s.attempt : ℤ) ≤ max inv.policy.maxAttempts 0
  length : (executions s.run.actions).length = s.attempt
  path : Logged (Continues inv) (executions s.run.actions)
  planned : s.work.stage ∈ inv.policy.stages
  history : s.work.history = (s.work.call.repair.map (·.history)).getD []
  original : s.work.branch = .original → ∀ x ∈ executions s.run.actions, x.branch = .original
  ready : ∀ r, Continues inv (executions s.run.actions) (execution inv s r)

namespace OnPath

variable (h : OnPath inv s)
include h

theorem path_tried (r : Round A) :
    Logged (Continues inv) (executions (tried inv s r).run.actions) := by
  rw [executions_tried]
  exact h.path.snoc (h.ready r)

/-- The branch stays the original one until the rerun. -/
theorem original_tried (r : Round A) (hb : s.work.branch = .original) :
    ∀ x ∈ executions (tried inv s r).run.actions, x.branch = .original := by
  intro x hx
  rw [executions_tried, mem_append, mem_singleton] at hx
  rcases hx with hx | rfl
  · exact h.original hb x hx
  · exact hb

/-- **The stage that is entered.** -/
theorem advanced {f : Fault} {p : Prepared A} {next : PlannedWork A} {run : RunState A}
    {hash : String} (left : (s.attempt + 1 : ℤ) < inv.policy.maxAttempts)
    (failure : (tried inv s r).verdict.failure = some f) (semantic : Semantic inv s r)
    (prepares : Prepares inv s.work (passed inv s r f) (s.attempt + 1) r.prepared p)
    (ready : p.work = .ok next) (lookups : Lookups looked)
    (actions : run.actions = (tried inv s r).run.actions ++ p.actions ++ looked) :
    OnPath inv ⟨run, s.attempt + 1, { next with generationHash := hash }, some s.work.stage,
      s.attempt + 1⟩ := by
  have hruns : executions run.actions = executions (tried inv s r).run.actions := by
    rw [actions, append_assoc, executions_append,
      executions_of_quiet (prepares.requests.quiet.append lookups.quiet), append_nil]
  have hlength : (executions run.actions).length = s.attempt + 1 := by
    rw [hruns, executions_tried, length_append, h.length]
    rfl
  have hbranch : s.work.branch = s.work.stage.branch := (h.ready r).branch
  have hsem := semantic_execution.2 semantic
  have hpath := h.path_tried r
  rw [← hruns] at hpath
  cases prepares with
  | rerun hnext =>
    obtain ⟨hb, hs, hrepair, hhistory⟩ := preparePlannedWork_identity ready
    refine ⟨by push_cast; omega, hlength, hpath, ?_, ?_, ?_, fun r' => ?_⟩ <;> dsimp only
    · exact hs ▸ Policy.mem_of_next h.planned (hbranch ▸ hnext)
    · rw [hhistory, hrepair]
    · exact hb ▸ fun heq => by cases heq
    · rw [hruns, executions_tried]
      exact (h.ready r).rerun h.planned (h.original (Policy.original_of_next hnext)) hsem hnext hs hb
        hrepair rfl
  | repair hnext hrepairs hactions hworks =>
    obtain ⟨work, hwork, rfl⟩ := hworks next ready
    obtain ⟨hb, hs, hrepair, hhistory⟩ := preparePlannedWork_identity hwork
    refine ⟨by push_cast; omega, hlength, hpath, ?_, ?_, ?_, fun r' => ?_⟩ <;>
      dsimp only [PlannedWork.carries]
    · exact hs ▸ Policy.mem_of_next h.planned (hbranch ▸ hnext)
    · rw [hhistory, hrepair]
    · rw [hb, hruns]
      exact h.original_tried r
    · rw [hruns, executions_tried]
      refine (h.ready r).repair h.planned hsem (hs ▸ hnext) (hs ▸ hrepairs) hb ?_ (hrepair ▸ rfl) rfl
      have hx : (execution inv s r).history = s.work.history := h.history.symm
      rw [hx, ← passed_eq failure]
      exact congrArg (fun repair : Option RepairRequest => (repair.map (·.history)).getD []) hrepair

/-- **An attempt that goes on** keeps to the plan. -/
theorem next {s' : State A} (hmoves : Moves inv s r (.next s')) : OnPath inv s' := by
  cases hmoves with
  | @retried run f left failure retryable syntactic actions =>
    have hruns : executions run.actions = executions (tried inv s r).run.actions := by rw [actions]
    refine ⟨by push_cast; omega, ?_, hruns ▸ h.path_tried r, h.planned, h.history, ?_, fun r' => ?_⟩
    · rw [hruns, executions_tried, length_append, h.length]
      rfl
    · rw [hruns]
      exact h.original_tried r
    · dsimp only
      rw [hruns, executions_tried]
      exact (h.ready r).retry (by simpa using mt semantic_execution.1 syntactic)
        (retryable_execution retryable syntactic) ⟨rfl, rfl, rfl, rfl, rfl⟩ rfl
  | advanced hash looked left failure semantic prepared ready consults actions accumulator search
      keyed =>
    exact h.advanced left failure semantic (prepareNextPlannedWork_prepares prepared) ready
      consults.lookups actions

/-- **An attempt that ends the run** was the plan's. -/
theorem stop {stop : Stop A} (hmoves : Moves inv s r (.stop stop)) :
    Disciplined inv (executions stop.run.actions) := by
  have htried (hallowed : (s.attempt : ℤ) < inv.policy.maxAttempts) :
      Disciplined inv (executions (tried inv s r).run.actions) := by
    refine ⟨?_, h.path_tried r⟩
    rw [executions_tried, length_append, h.length, length_singleton]
    push_cast
    omega
  have hmore {run : RunState A} {f : Fault} {p : Prepared A} {looked : List (Action A)}
      (hleft : (s.attempt + 1 : ℤ) < inv.policy.maxAttempts)
      (hp : inv.prepareNextPlannedWork s.work (passed inv s r f) (s.attempt + 1) r.prepared = some p)
      (hlooked : Lookups looked)
      (ha : run.actions = (tried inv s r).run.actions ++ p.actions ++ looked) :
      Disciplined inv (executions run.actions) := by
    rw [executions_advanced hp hlooked ha, ← executions_tried]
    exact htried (by omega)
  cases hmoves with
  | unattempted actions => exact actions ▸ ⟨h.length ▸ h.budget, h.path⟩
  | accepted allowed =>
    dsimp only
    rw [executions_admitted]
    exact htried allowed
  | interrupted allowed failure ended actions | terminal allowed failure active actions
  | gaveUp allowed failure retryable syntactic actions => exact actions ▸ htried allowed
  | stalled looked left failure semantic prepared ready consults actions =>
    exact hmore left prepared consults.lookups actions
  | served left failure semantic prepared ready reruns keyed answer admitted serves actions =>
    exact hmore left prepared (lookups_singleton _ _) actions

end OnPath

/-- A run that begins is in the original generation. -/
theorem onPath_ready {o : Opening A} {run : RunState A} {w : PlannedWork A} {hash : String}
    (prepared : (generation inv o).work = .ok w) (lookups : Lookups looked)
    (actions : run.actions = (generation inv o).actions ++ looked) :
    OnPath inv { run := run, attempt := 0, work := { w with generationHash := hash } } := by
  have hruns : executions run.actions = [] := actions ▸ executions_generation lookups
  obtain ⟨hbranch, hstage, hrepair, hhistory⟩ := preparePlannedWork_identity prepared
  refine ⟨Int.le_max_right _ _, congrArg List.length hruns, ?_, ?_, ?_, ?_, fun r => ?_⟩ <;> dsimp only
  · rw [hruns]
    exact logged_nil
  · simp [hstage, Policy.stages, Stage.order]
  · rw [hhistory, hrepair]
  · rw [hruns]
    exact fun _ x hx => absurd hx not_mem_nil
  · rw [hruns]
    exact continues_nil rfl hbranch hstage hrepair

end Planned

/-- **Recovery keeps to its plan**, within its attempts. -/
theorem recovery_disciplined (inv : Invocation A) [Amounts A] (o : Opening A) (rounds : ℕ → Round A) :
    ∃ e, executeRecoveryPlan inv o rounds = some e ∧ Disciplined inv (executions e.actions) := by
  obtain ⟨e, he⟩ := run_returns inv o rounds
  refine ⟨e, he, ?_⟩
  -- Nothing was attempted before the loop.
  have hnone {actions : List (Action A)} (h : executions actions = []) :
      Disciplined inv (executions actions) := by
    rw [h]
    exact ⟨Int.le_max_right _ _, logged_nil⟩
  refine run_rule (Q := fun e => Disciplined inv (executions e.actions))
    (fun _ s => Planned.OnPath inv s) ?_ ?_ ?_ ?_ ?_ he
  · exact fun _ _ => hnone rfl
  · intro stop hstarts
    rw [close_actions]
    cases hstarts with
    | failed looked prepared stops consults actions => exact hnone (actions ▸ executions_generation consults.lookups)
    | served prepared keyed answer admitted serves actions =>
      exact hnone (actions ▸ executions_generation (lookups_singleton _ _))
  · intro s hstarts
    cases hstarts with
    | ready hash looked valid prepared consults actions =>
      exact Planned.onPath_ready prepared consults.lookups actions
  · exact fun n s s' h hmoves => h.next hmoves
  · intro n s stop h hmoves
    rw [close_actions]
    exact h.stop hmoves

end HardenLlm.Runtime
