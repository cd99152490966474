import HardenLlm.Runtime.Stages
/-!
# Connections and settings of a recovery

Every request of a recovery is prepared for a connection together with
that connection's own credential. A leaf that takes the generation's
settings takes them from the generation of its branch, which every stage
carries along; a model leaf takes nothing from it.
-/

namespace HardenLlm.Runtime

open List Planned

variable {A : Type} {answer : Except Fault PreparedOperation}

/-- The stage that opens a branch. -/
def Branch.generation : Branch → Stage
  | .original => .originalGenerate
  | .rerun => .rerunGenerate

/-- The requests prepared, among the actions. -/
def preparations (actions : List (Action A)) : List (Preparation A) :=
  actions.filterMap fun
    | .prepare p => some p
    | _ => none

/-- The connections a call may use, each with its own credential: the one
it selected and those configured beside it. -/
def Invocation.Configured (inv : Invocation A) (b : ResolvedConnection A) : Prop :=
  b = inv.selected ∨ ∃ id, inv.call.connections id = some b

/-- **A request with the settings of another.** -/
structure Preparation.Inherits (p g : Preparation A) : Prop where
  connection : p.connection = g.connection
  credential : p.credential = g.credential
  modelID : p.call.modelID = g.call.modelID
  reasoningEffort : p.call.reasoningEffort = g.call.reasoningEffort
  providerOptions : p.call.providerOptions = g.call.providerOptions

/-- **What a request may use**, after those prepared before it. -/
structure Targeted (inv : Invocation A) (before : List (Preparation A)) (p : Preparation A) :
    Prop where
  branch : p.branch = p.stage.branch
  paired : inv.Configured ⟨p.connection, p.credential⟩
  generation : ∀ t, inv.policy.leaf p.stage = some t → t.source = .generation →
    (∃ g ∈ before, g.stage = p.branch.generation)
      ∧ ∀ g ∈ before, g.stage = p.branch.generation → p.Inherits g
  model : ∀ t, inv.policy.leaf p.stage = some t → t.source = .model →
    p.call.providerOptions = t.providerOptions ∧ p.call.reasoningEffort = t.reasoningEffort
  repairs : p.stage ≠ .originalGenerate → p.stage ≠ .rerunGenerate → p.call.webSearch = false

/-! ## Leaves -/

section Leaves

variable {inv : Invocation A} {selected b : ResolvedConnection A} {call : Call A}
  {target : Option RecoveryTarget} {t : RecoveryTarget}

theorem leafCall_of_ne (h : t.source ≠ .model) : leafCall call (some t) = call := if_neg h

theorem leafCall_of_model (h : t.source = .model) :
    (leafCall call (some t)).providerOptions = t.providerOptions
      ∧ (leafCall call (some t)).reasoningEffort = t.reasoningEffort := by
  simp [leafCall, h]

theorem leafBinding_of_ne (h : t.source ≠ .model) :
    leafBinding selected call (some t) = some selected := if_neg fun hm => h hm.1

/-- Only a model leaf leaves the connection it is given. -/
theorem leafBinding_cases (h : leafBinding selected call target = some b) :
    b = selected ∨ ∃ t, target = some t ∧ t.source = .model
      ∧ call.connections t.connectionID = some b := by
  unfold leafBinding at h
  split at h
  · exact .inl (Option.some.inj h).symm
  split at h
  · rename_i hmodel
    exact .inr ⟨_, rfl, hmodel.1, h⟩
  · exact .inl (Option.some.inj h).symm

theorem baseCall_connections : inv.baseCall.connections = inv.call.connections := by
  unfold Invocation.baseCall
  split <;> rfl

/-- **No repair searches the web.** -/
theorem repairCall_webSearch {w : PlannedWork A} : (inv.repairCall w target).webSearch = false := by
  unfold Invocation.repairCall
  split <;> rfl

/-- A leaf with the generation's settings starts from the generation. -/
theorem repair_of_generation (inv : Invocation A) (w : PlannedWork A) (h : t.source = .generation) :
    inv.repairBinding w (some t) = w.generationBinding
      ∧ inv.repairCall w (some t) = { w.generationCall with webSearch := false } :=
  ⟨if_pos (by simp [h]), if_pos (by simp [h])⟩

/-- A rerun never takes the generation's settings. -/
theorem rerun_model (hv : validateRecoveryTargets inv.policy = none)
    (ht : inv.policy.leaf .rerunGenerate = some t) : t.source = .model := by
  obtain ⟨plan, hplan, rfl⟩ := Option.map_eq_some_iff.1 ht
  unfold validateRecoveryTargets at hv
  rw [Option.or_eq_none_iff, hplan, Option.bind_some, Option.or_eq_none_iff] at hv
  by_contra hne
  have htarget := hv.2.1
  simp [RecoveryTarget.validate, hne] at htarget

end Leaves

/-! ## Requests among the actions -/

section Preparations

variable {actions looked stored : List (Action A)}

theorem preparations_append (l l' : List (Action A)) :
    preparations (l ++ l') = preparations l ++ preparations l' := filterMap_append

theorem preparations_of_none (h : ∀ p, .prepare p ∉ actions) : preparations actions = [] := by
  refine filterMap_eq_nil_iff.2 fun a ha => ?_
  cases a with
  | prepare p => exact absurd ha (h p)
  | attempt | lookup | store => rfl

theorem preparations_lookups (h : Lookups looked) : preparations looked = [] := by
  refine preparations_of_none fun p hp => ?_
  obtain ⟨_, _, hlookup⟩ := h _ hp
  cases hlookup

theorem preparations_stores (h : Stores stored) : preparations stored = [] := by
  refine preparations_of_none fun p hp => ?_
  obtain ⟨_, _, _, hstore⟩ := h _ hp
  cases hstore

/-- The request of a stage, if its connection is configured. -/
theorem preparations_preparePlannedWork {selected : ResolvedConnection A} {call : Call A}
    {branch : Branch} {stage : Stage} {target : Option RecoveryTarget}
    {repair : Option RepairRequest} :
    preparations (preparePlannedWork selected call branch stage target repair answer).actions
      = ((leafBinding selected call target).toList.map fun binding =>
        ⟨branch, stage, binding.connection, binding.credential,
          leafCall { call with repair := repair } target⟩) := by
  rw [preparePlannedWork_actions]
  cases leafBinding selected call target <;> rfl

end Preparations

/-! ## From stage to stage -/

/-- The generation that a stage carries along. -/
def PlannedWork.generation (w : PlannedWork A) : Preparation A :=
  ⟨w.branch, w.branch.generation, w.generationBinding.connection, w.generationBinding.credential,
    w.generationCall⟩

/-- **The stage under way carries the generation of its branch**, which
was prepared before. -/
structure Carries (inv : Invocation A) (before : List (Preparation A)) (w : PlannedWork A) :
    Prop where
  branch : w.branch = w.stage.branch
  prepared : ∃ g ∈ before, g.stage = w.branch.generation
  inherits : ∀ g ∈ before, g.stage = w.branch.generation → w.generation.Inherits g
  original : w.branch = .original → ∀ g ∈ before, g.stage ≠ .rerunGenerate
  configured : inv.Configured w.generationBinding

namespace Carries

variable {inv : Invocation A} {before : List (Preparation A)} {w work : PlannedWork A}
  {history : List RepairHistoryEntry} {attempt : ℕ} {answer : Except Fault PreparedOperation}
  {p : Prepared A} {stage : Stage} {b : ResolvedConnection A}

/-- The connection of a rerun is configured. -/
theorem configured_rerun
    (hb : leafBinding inv.selected { inv.baseCall with repair := none } (inv.policy.leaf .rerunGenerate)
      = some b) : inv.Configured b := by
  rcases leafBinding_cases hb with rfl | ⟨t, -, -, hconnection⟩
  · exact .inl rfl
  · exact .inr ⟨_, (congrFun baseCall_connections _).symm.trans hconnection⟩

/-- The connection of a repair is that of its branch's generation, or one
that is configured. -/
theorem configured_repair (h : Carries inv before w)
    (hb : leafBinding (inv.repairBinding w (inv.policy.leaf stage))
      (inv.repairCall w (inv.policy.leaf stage)) (inv.policy.leaf stage) = some b) :
    inv.Configured b := by
  rcases leafBinding_cases hb with rfl | ⟨t, ht, hmodel, hconnection⟩
  · unfold Invocation.repairBinding
    split
    · exact h.configured
    · exact .inl rfl
  · -- A model leaf finds its connection where the caller's call does.
    rw [ht, Invocation.repairCall, if_neg (by simp [hmodel])] at hconnection
    exact .inr ⟨_, (congrFun baseCall_connections _).symm.trans hconnection⟩

/-- **The requests of the next stage** use what they may. -/
theorem logged (h : Carries inv before w) (hlog : Logged (Targeted inv) before)
    (hv : validateRecoveryTargets inv.policy = none)
    (hp : Prepares inv w history attempt answer p) :
    Logged (Targeted inv) (before ++ preparations p.actions) := by
  cases hp with
  | rerun =>
    rw [Invocation.prepareRerun, preparations_preparePlannedWork]
    cases hb : leafBinding inv.selected { inv.baseCall with repair := none }
        (inv.policy.leaf .rerunGenerate) with
    | none => simpa using hlog
    | some b =>
      refine hlog.snoc ⟨rfl, configured_rerun hb, fun t ht hsource => ?_, fun t ht hsource => ?_,
        fun _ hne => absurd rfl hne⟩
      · exact absurd (rerun_model hv ht) (by simp [hsource])
      · dsimp only at ht ⊢
        rw [ht]
        exact leafCall_of_model hsource
  | @repair stage p hnext hrepairs hactions =>
    rw [hactions, Invocation.prepareRepair, preparations_preparePlannedWork]
    cases hb : leafBinding (inv.repairBinding w (inv.policy.leaf stage))
        (inv.repairCall w (inv.policy.leaf stage)) (inv.policy.leaf stage) with
    | none => simpa using hlog
    | some b =>
      have hbranch : w.branch = stage.branch :=
        h.branch.trans (Policy.before_of_next (h.branch ▸ hnext) hrepairs).1.symm
      refine hlog.snoc ⟨hbranch, h.configured_repair hb, fun t ht hsource => ⟨h.prepared, ?_⟩,
        fun t ht hsource => ?_, fun _ _ => ?_⟩
      · intro g hg hstage
        have hg := h.inherits g hg hstage
        have hne : t.source ≠ .model := by simp [hsource]
        obtain ⟨hbinding, hcall⟩ := repair_of_generation inv w hsource
        dsimp only at ht ⊢
        rw [ht, leafBinding_of_ne hne, hbinding] at hb
        cases hb
        rw [ht, leafCall_of_ne hne, hcall]
        exact { hg with }
      · dsimp only at ht ⊢
        rw [ht]
        exact leafCall_of_model hsource
      · rw [leafCall_webSearch]
        exact repairCall_webSearch

/-- **The next stage carries the generation of its branch.** -/
theorem next (h : Carries inv before w) (hp : Prepares inv w history attempt answer p)
    (hw : p.work = .ok work) : Carries inv (before ++ preparations p.actions) work := by
  cases hp with
  | rerun hnext =>
    rw [Invocation.prepareRerun, preparations_preparePlannedWork]
    obtain ⟨b, prepared, hb, -, rfl⟩ := preparePlannedWork_work hw
    rw [hb]
    have hfresh := h.original (Policy.original_of_next hnext)
    refine ⟨rfl, ⟨_, mem_append_right _ (mem_singleton_self _), rfl⟩, fun g hg hstage => ?_,
      fun horiginal => (by cases horiginal), configured_rerun hb⟩
    rcases mem_append.1 hg with hg | hg
    · exact absurd hstage (hfresh g hg)
    · rw [mem_singleton.1 hg]
      exact ⟨rfl, rfl, rfl, rfl, rfl⟩
  | @repair stage p hnext hrepairs hactions hworks =>
    obtain ⟨repair, hrepair, rfl⟩ := hworks work hw
    rw [hactions, Invocation.prepareRepair, preparations_preparePlannedWork]
    obtain ⟨b, prepared, hb, -, rfl⟩ := preparePlannedWork_work hrepair
    rw [hb]
    obtain ⟨g, hg, hstage⟩ := h.prepared
    have hnot : stage ≠ w.branch.generation := by
      cases w.branch with
      | original => exact Policy.next_ne_originalGenerate (h.branch ▸ hnext)
      | rerun => exact hrepairs
    refine ⟨h.branch.trans (Policy.before_of_next (h.branch ▸ hnext) hrepairs).1.symm,
      ⟨g, mem_append_left _ hg, hstage⟩, fun g hg hstage => ?_, fun horiginal g hg => ?_,
      h.configured⟩
    · rcases mem_append.1 hg with hg | hg
      · have hg := h.inherits g hg hstage
        exact { hg with }
      · rw [mem_singleton.1 hg] at hstage
        exact absurd hstage hnot
    · rcases mem_append.1 hg with hg | hg
      · exact h.original horiginal g hg
      · rw [mem_singleton.1 hg]
        exact hrepairs

end Carries

/-! ## The loop keeps to its targets -/

namespace Planned

variable [Amounts A] {inv : Invocation A} {s : State A} {r : Round A}

theorem preparations_tried :
    preparations (tried inv s r).run.actions = preparations s.run.actions := by
  rw [tried_actions, preparations_append]
  exact append_nil _

/-- **The loop keeps to its targets.** -/
structure Targeting (inv : Invocation A) (s : State A) : Prop where
  valid : validateRecoveryTargets inv.policy = none
  log : Logged (Targeted inv) (preparations s.run.actions)
  carries : Carries inv (preparations s.run.actions) s.work

namespace Targeting

/-- The requests of a stage that is prepared after an attempt. -/
theorem logged (h : Targeting inv s) {run : RunState A} {history : List RepairHistoryEntry}
    {attempt : ℕ} {p : Prepared A} {looked : List (Action A)}
    (hp : Prepares inv s.work history attempt answer p) (hlooked : Lookups looked)
    (ha : run.actions = (tried inv s r).run.actions ++ p.actions ++ looked) :
    preparations run.actions = preparations s.run.actions ++ preparations p.actions
      ∧ Logged (Targeted inv) (preparations run.actions) := by
  have hrun : preparations run.actions = preparations s.run.actions ++ preparations p.actions := by
    rw [ha, preparations_append, preparations_append, preparations_tried,
      preparations_lookups hlooked, append_nil]
  exact ⟨hrun, hrun ▸ h.carries.logged h.log h.valid hp⟩

theorem next {s' : State A} (h : Targeting inv s) (hmoves : Moves inv s r (.next s')) :
    Targeting inv s' := by
  cases hmoves with
  | retried left failure retryable syntactic actions =>
    have hrun := (congrArg preparations actions).trans preparations_tried
    exact ⟨h.valid, hrun ▸ h.log, hrun ▸ h.carries⟩
  | advanced hash looked left failure semantic prepared ready consults actions accumulator search
      keyed =>
    have hp := prepareNextPlannedWork_prepares prepared
    obtain ⟨hrun, hlog⟩ := h.logged hp consults.lookups actions
    have hnext := h.carries.next hp ready
    rw [← hrun] at hnext
    exact ⟨h.valid, hlog, { hnext with }⟩

theorem stop {stop : Stop A} (h : Targeting inv s) (hmoves : Moves inv s r (.stop stop)) :
    Logged (Targeted inv) (preparations stop.run.actions) := by
  have hsame {run : RunState A} (ha : run.actions = (tried inv s r).run.actions) :
      Logged (Targeted inv) (preparations run.actions) :=
    ((congrArg preparations ha).trans preparations_tried) ▸ h.log
  cases hmoves with
  | unattempted actions => exact actions ▸ h.log
  | accepted =>
    obtain ⟨stored, hactions, hstored⟩ := admitted_actions inv (tried inv s r).run r s.work
      (tried inv s r).result (s.attempt + 1)
    dsimp only
    rw [hactions, preparations_append, preparations_stores hstored, append_nil, preparations_tried]
    exact h.log
  | interrupted allowed failure ended actions | terminal allowed failure active actions
  | gaveUp allowed failure retryable syntactic actions => exact hsame actions
  | stalled looked left failure semantic prepared ready consults actions =>
    exact (h.logged (prepareNextPlannedWork_prepares prepared) consults.lookups actions).2
  | served left failure semantic prepared ready reruns keyed answer admitted serves actions =>
    exact (h.logged (prepareNextPlannedWork_prepares prepared) (lookups_singleton _ _) actions).2

end Targeting

variable {o : Opening A}

omit [Amounts A] in
/-- The original generation is for the connection that was selected. -/
theorem preparations_generation :
    preparations (generation inv o).actions = [⟨.original, .originalGenerate, inv.connection,
      inv.credential, { inv.baseCall with repair := none }⟩] :=
  preparations_preparePlannedWork

omit [Amounts A] in
theorem logged_generation {looked : List (Action A)} (hlooked : Lookups looked) :
    Logged (Targeted inv) (preparations ((generation inv o).actions ++ looked)) := by
  rw [preparations_append, preparations_lookups hlooked, append_nil, preparations_generation]
  exact logged_nil.snoc ⟨rfl, .inl rfl, fun _ ht => (by cases ht), fun _ ht => (by cases ht),
    fun hne => absurd rfl hne⟩

omit [Amounts A] in
theorem carries_generation {w : PlannedWork A} (h : (generation inv o).work = .ok w) :
    Carries inv (preparations (generation inv o).actions) w := by
  rw [preparations_generation]
  obtain ⟨b, prepared, hb, -, rfl⟩ := preparePlannedWork_work h
  cases hb
  refine ⟨rfl, ⟨_, mem_singleton_self _, rfl⟩, fun g hg _ => ?_, fun _ g hg => ?_, .inl rfl⟩
  · rw [mem_singleton.1 hg]
    exact ⟨rfl, rfl, rfl, rfl, rfl⟩
  · rw [mem_singleton.1 hg]
    simp

end Planned

/-- **Recovery never crosses credentials or targets.** -/
theorem recovery_targeted (inv : Invocation A) [Amounts A] (o : Opening A) (rounds : ℕ → Round A) :
    ∃ e, executeRecoveryPlan inv o rounds = some e
      ∧ Logged (Targeted inv) (preparations e.actions) := by
  obtain ⟨e, he⟩ := run_returns inv o rounds
  refine ⟨e, he, ?_⟩
  refine run_rule (Q := fun e => Logged (Targeted inv) (preparations e.actions))
    (fun _ s => Planned.Targeting inv s) ?_ ?_ ?_ ?_ ?_ he
  · exact fun _ _ => logged_nil
  · intro stop hstarts
    rw [close_actions]
    cases hstarts with
    | failed looked prepared stops consults actions => exact actions ▸ Planned.logged_generation consults.lookups
    | served prepared keyed answer admitted serves actions =>
      exact actions ▸ Planned.logged_generation (lookups_singleton _ _)
  · intro s hstarts
    cases hstarts with
    | ready hash looked valid prepared consults actions =>
      have hcarries := Planned.carries_generation prepared
      refine ⟨valid, actions ▸ Planned.logged_generation consults.lookups, ?_⟩
      dsimp only
      rw [actions, preparations_append, preparations_lookups consults.lookups, append_nil]
      exact { hcarries with }
  · exact fun n s s' h hmoves => h.next hmoves
  · intro n s stop h hmoves
    rw [close_actions]
    exact h.stop hmoves

end HardenLlm.Runtime
