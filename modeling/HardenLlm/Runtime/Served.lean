import HardenLlm.Runtime.Stored
/-!
# What a run reads from the cache

A run that asks the cache for a key ends with the answer, unless there is
none: an error of the cache is the run's, a result that is admitted is
served, and any other is an integrity error. This holds for the original
generation and for a rerun.
-/

namespace HardenLlm.Runtime

open List

variable {A : Type} [Amounts A] {inv : Invocation A} {o : Opening A} {rounds : ℕ → Round A}
  {hash version : String} {answer cached : Except Fault (Option (CachedResult A))} {e : Ending A}
  {admits : CachedResult A → Option Fault} {hashed : Except Fault String}

/-- **What the cache returns** whenever it is asked for this key. -/
structure Returns (o : Opening A) (rounds : ℕ → Round A) (hash : String)
    (answer : Except Fault (Option (CachedResult A))) : Prop where
  opening : o.hashed = .ok hash → o.cached = answer
  round : ∀ n, (rounds n).hashed = .ok hash → (rounds n).cached = answer
  /-- There is an answer. -/
  found : answer ≠ .ok none

/-- How a run ends that was answered so. -/
def AnsweredBy (admits : CachedResult A → Option Fault)
    (answer : Except Fault (Option (CachedResult A))) (e : Ending A) : Prop :=
  match answer with
  | .error f => e.err = some f
  | .ok none => True
  | .ok (some c) =>
    (admits c = none → e.err = none ∧ Serves e.record c)
      ∧ (admits c ≠ none → e.err = some .cacheIntegrity)

/-- **A run that asks for a key** ends with the answer. -/
def Looked (inv : Invocation A) (admits : ExecutionTarget → CachedResult A → Option Fault)
    (o : Opening A) (rounds : ℕ → Round A) (hash version : String)
    (answer : Except Fault (Option (CachedResult A))) (e : Ending A) : Prop :=
  .lookup hash version ∈ e.actions → version = inv.version
    ∧ ∃ target, KeyedTarget o rounds hash target ∧ AnsweredBy (admits target) answer e

omit [Amounts A] in
/-- The question that was not answered with a result to serve. -/
theorem Consults.answered {looked : List (Action A)} {stop : Option Fault}
    (h : Consults inv hashed cached admits looked stop) (hmem : .lookup hash version ∈ looked)
    (hreturns : hashed = .ok hash → cached = answer) (hfound : answer ≠ .ok none) :
    version = inv.version ∧ hashed = .ok hash
      ∧ ∃ f, stop = some f ∧ (e.err = some f → AnsweredBy admits answer e) := by
  cases h with
  | idle => cases hmem
  | failed keyed hcached =>
    cases mem_singleton.1 hmem
    cases (hreturns keyed).symm.trans hcached
    exact ⟨rfl, keyed, _, rfl, id⟩
  | missed keyed hcached =>
    cases mem_singleton.1 hmem
    exact absurd ((hreturns keyed).symm.trans hcached) hfound
  | refused keyed hcached hrefused =>
    cases mem_singleton.1 hmem
    cases (hreturns keyed).symm.trans hcached
    exact ⟨rfl, keyed, _, rfl, fun herr => ⟨fun hnone => absurd hnone hrefused, fun _ => herr⟩⟩

omit [Amounts A] in
/-- A question without an answer is not for this key. -/
theorem Consults.unanswered {looked : List (Action A)}
    (h : Consults inv hashed cached admits looked none)
    (hreturns : hashed = .ok hash → cached = answer) (hfound : answer ≠ .ok none) :
    .lookup hash version ∉ looked := by
  intro hmem
  cases h with
  | idle => cases hmem
  | missed keyed hcached =>
    cases mem_singleton.1 hmem
    exact hfound ((hreturns keyed).symm.trans hcached)

omit [Amounts A] in
/-- The question that was. -/
theorem answeredBy_of_serves {c : CachedResult A} (hadmitted : admits c = none)
    (herr : e.err = none) (hserves : Serves e.record c) : AnsweredBy admits (.ok (some c)) e :=
  ⟨fun _ => ⟨herr, hserves⟩, fun hrefused => absurd hadmitted hrefused⟩

omit [Amounts A] in
theorem serves_finish {run : RunState A} {err : Option Fault} {branch : Branch} {elapsed : ℤ}
    {last : RunState A → RunState A} {c : CachedResult A} (h : Serves run.record c) :
    Serves (run.finish inv err branch elapsed last).record c :=
  { h with }

omit [Amounts A] in
/-- Preparing asks the cache nothing. -/
theorem Requests.looked {requests looked : List (Action A)} (h : Requests requests)
    (hmem : .lookup hash version ∈ requests ++ looked) : .lookup hash version ∈ looked :=
  (mem_append.1 hmem).resolve_left (h.lookup_notMem _ _)

omit [Amounts A] in
theorem lookup_notMem_attempt (x : Execution A) :
    .lookup hash version ∉ ([.attempt x] : List (Action A)) := by
  intro hmem
  cases mem_singleton.1 hmem

omit [Amounts A] in
theorem lookup_notMem_stores {stored : List (Action A)} (h : Stores stored) :
    .lookup hash version ∉ stored := by
  intro hmem
  obtain ⟨_, _, _, hstore⟩ := h _ hmem
  cases hstore

/-! ## Without a plan -/

namespace Simple

variable {s : State A} {r : Round A}

theorem lookup_notMem_tried (h : .lookup hash version ∉ s.run.actions) :
    .lookup hash version ∉ (tried inv s r).run.actions := by
  rw [tried_actions]
  exact not_mem_append h (lookup_notMem_attempt _)

/-- **What a call without a plan is answered.** -/
theorem run_looked (hr : Returns o rounds hash answer) (h : run inv o rounds = some e) :
    Looked inv (fun target c => admitCachedResult inv.parseURL target c inv.call) o rounds hash
      version answer e := by
  -- The key is not asked for while the loop goes on.
  refine run_rule (Q := Looked inv (fun target c => admitCachedResult inv.parseURL target c inv.call)
      o rounds hash version answer)
    (fun _ s => .lookup hash version ∉ s.run.actions) ?_ ?_ ?_ ?_ h
  · intro r hstarts hmem
    rw [close_actions] at hmem
    cases hstarts with
    | failed requests => exact absurd hmem (requests.lookup_notMem _ _)
    | unserved prepared requests consults actions =>
      obtain ⟨hversion, hkeyed, f, hstop, hanswered⟩ :=
        consults.answered (requests.looked (actions ▸ hmem)) hr.opening hr.found
      cases hstop
      exact ⟨hversion, _, ⟨_, inv.connection, .inl ⟨prepared, hkeyed⟩, rfl⟩, hanswered rfl⟩
    | served prepared keyed hcached admitted serves requests actions =>
      cases mem_singleton.1 (requests.looked (actions ▸ hmem))
      cases (hr.opening keyed).symm.trans hcached
      exact ⟨rfl, _, ⟨_, inv.connection, .inl ⟨prepared, keyed⟩, rfl⟩,
        answeredBy_of_serves admitted rfl (serves_finish serves)⟩
  · intro s hstarts hmem
    cases hstarts with
    | ready prepared requests consults actions =>
      exact consults.unanswered hr.opening hr.found (requests.looked (actions ▸ hmem))
  · intro n s s' hunasked hmoves
    cases hmoves with
    | retried failure retryable notLast actions =>
      exact actions ▸ lookup_notMem_tried hunasked
  · intro n s r hunasked hmoves hmem
    rw [close_actions] at hmem
    cases hmoves with
    | unattempted => exact absurd hmem hunasked
    | accepted =>
      obtain ⟨stored, hactions, hstored⟩ := admitted_actions inv (tried inv s (rounds n)).run
        (rounds n) (tried inv s (rounds n)).result (s.number + 1)
        (targetFromPrepared inv.connection s.prepared)
      rw [hactions] at hmem
      exact absurd hmem
        (not_mem_append (lookup_notMem_tried hunasked) (lookup_notMem_stores hstored))
    | terminal => exact absurd hmem (lookup_notMem_tried hunasked)
    | gaveUp failure retryable actions => exact absurd (actions ▸ hmem) (lookup_notMem_tried hunasked)

end Simple

/-! ## With a plan -/

namespace Planned

variable {s : State A} {r : Round A} {history : List RepairHistoryEntry}

theorem lookup_notMem_tried (h : .lookup hash version ∉ s.run.actions) :
    .lookup hash version ∉ (tried inv s r).run.actions := by
  rw [tried_actions]
  exact not_mem_append h (lookup_notMem_attempt _)

/-- The key is asked for, if at all, by the rerun that is looked up
now. -/
theorem mem_looked {attempt : ℕ} {p : Prepared A} {looked : List (Action A)}
    (h : .lookup hash version ∉ s.run.actions)
    (hp : inv.prepareNextPlannedWork s.work history attempt r.prepared = some p)
    (hmem : .lookup hash version ∈ (tried inv s r).run.actions ++ p.actions ++ looked) :
    .lookup hash version ∈ looked :=
  (mem_append.1 hmem).resolve_left (not_mem_append (lookup_notMem_tried h)
    ((prepareNextPlannedWork_prepares hp).requests.lookup_notMem _ _))

omit [Amounts A] in
/-- A generation of a new branch is the one that was prepared. -/
theorem keyedTarget_rerun {n attempt : ℕ} {p : Prepared A} {next : PlannedWork A}
    (hp : inv.prepareNextPlannedWork s.work history attempt (rounds n).prepared = some p)
    (hnext : p.work = .ok next) (hreruns : next.branch ≠ s.work.branch)
    (hkeyed : (rounds n).hashed = .ok hash) : KeyedTarget o rounds hash next.generationTarget := by
  have hprepares := prepareNextPlannedWork_prepares hp
  cases hprepares with
  | rerun =>
    obtain ⟨binding, prepared, -, hanswer, rfl⟩ := preparePlannedWork_work hnext
    exact ⟨prepared, binding.connection, .inr ⟨n, hanswer, hkeyed⟩, rfl⟩
  | repair hstage repairs actions works =>
    obtain ⟨repair, hrepair, rfl⟩ := works next hnext
    exact absurd (preparePlannedWork_identity hrepair).1 hreruns

omit [Amounts A] in
/-- The original generation is the one that was prepared. -/
theorem keyedTarget_generation {w : PlannedWork A} (hw : (generation inv o).work = .ok w)
    (hkeyed : o.hashed = .ok hash) : KeyedTarget o rounds hash w.generationTarget := by
  obtain ⟨binding, prepared, -, hanswer, rfl⟩ := preparePlannedWork_work hw
  exact ⟨prepared, binding.connection, .inl ⟨hanswer, hkeyed⟩, rfl⟩

/-- **An attempt that ends the run.** -/
theorem looked_stop {n : ℕ} {stop : Stop A} (hr : Returns o rounds hash answer)
    (hunasked : .lookup hash version ∉ s.run.actions)
    (hmoves : Moves inv s (rounds n) (.stop stop)) :
    Looked inv (admission inv) o rounds hash version answer (close inv o stop) := by
  intro hmem
  rw [close_actions] at hmem
  have htried : .lookup hash version ∉ (tried inv s (rounds n)).run.actions :=
    lookup_notMem_tried hunasked
  cases hmoves with
  | unattempted actions => exact absurd (actions ▸ hmem) hunasked
  | accepted =>
    obtain ⟨stored, hactions, hstored⟩ := admitted_actions inv (tried inv s (rounds n)).run
      (rounds n) s.work (tried inv s (rounds n)).result (s.attempt + 1)
    rw [hactions] at hmem
    exact absurd hmem (not_mem_append htried (lookup_notMem_stores hstored))
  | interrupted allowed failure ended actions | terminal allowed failure active actions
  | gaveUp allowed failure retryable syntactic actions => exact absurd (actions ▸ hmem) htried
  | stalled looked left failure semantic prepared ready consults actions =>
    have hlooked := mem_looked hunasked prepared (actions ▸ hmem)
    obtain ⟨hversion, hkeyed, f, hstop, hanswered⟩ :=
      consults.answered hlooked (hr.round n) hr.found
    cases hstop
    rcases ready with hnil | ⟨next, hnext, hreruns, rfl⟩
    · rw [hnil] at hlooked
      cases hlooked
    · exact ⟨hversion, _, keyedTarget_rerun prepared hnext hreruns hkeyed, hanswered rfl⟩
  | served left failure semantic prepared ready reruns keyed hcached admitted serves actions =>
    have hlooked := mem_looked hunasked prepared (actions ▸ hmem)
    cases mem_singleton.1 hlooked
    cases (hr.round n keyed).symm.trans hcached
    exact ⟨rfl, _, keyedTarget_rerun prepared ready reruns keyed,
      answeredBy_of_serves admitted rfl (serves_finish serves)⟩

/-- **What a call with a plan is answered.** -/
theorem run_looked (hr : Returns o rounds hash answer)
    (h : executeRecoveryPlan inv o rounds = some e) :
    Looked inv (admission inv) o rounds hash version answer e := by
  refine run_rule (Q := Looked inv (admission inv) o rounds hash version answer)
    (fun _ s => .lookup hash version ∉ s.run.actions) ?_ ?_ ?_ ?_ ?_ h
  · exact fun _ _ hmem => absurd hmem not_mem_nil
  · intro stop hstarts hmem
    rw [close_actions] at hmem
    cases hstarts with
    | failed looked prepared stops consults actions =>
      have hlooked := generation_requests.looked (actions ▸ hmem)
      obtain ⟨hversion, hkeyed, f, hstop, hanswered⟩ :=
        consults.answered hlooked hr.opening hr.found
      have hsome : looked ≠ [] := ne_nil_of_mem hlooked
      obtain ⟨w, hw, rfl⟩ := prepared.resolve_left hsome
      rcases stops.resolve_left hsome with hgoes | hfails
      · cases hgoes.symm.trans hstop
      · cases hfails.symm.trans hstop
        exact ⟨hversion, _, keyedTarget_generation hw hkeyed, hanswered rfl⟩
    | served prepared keyed hcached admitted serves actions =>
      cases mem_singleton.1 (generation_requests.looked (actions ▸ hmem))
      cases (hr.opening keyed).symm.trans hcached
      exact ⟨rfl, _, keyedTarget_generation prepared keyed,
        answeredBy_of_serves admitted rfl (serves_finish serves)⟩
  · intro s hstarts hmem
    cases hstarts with
    | ready hash looked valid prepared consults actions =>
      exact consults.unanswered hr.opening hr.found (generation_requests.looked (actions ▸ hmem))
  · intro n s s' hunasked hmoves hmem
    cases hmoves with
    | retried left failure retryable syntactic actions =>
      exact absurd (actions ▸ hmem) (lookup_notMem_tried hunasked)
    | advanced hash looked left failure semantic prepared ready consults actions accumulator search
        keyed =>
      exact consults.unanswered (hr.round n) hr.found (mem_looked hunasked prepared (actions ▸ hmem))
  · exact fun n s stop hunasked hmoves => looked_stop hr hunasked hmoves

end Planned

/-- What a cached result is checked with, by the call's executor. -/
def Invocation.admission (inv : Invocation A) (target : ExecutionTarget) (c : CachedResult A) :
    Option Fault :=
  if inv.call.callType = .structured ∧ inv.policy.usesExplicitPlan = true then
    admitPlannedCachedResult inv.parseURL target c inv.baseCall
  else admitCachedResult inv.parseURL target c inv.call

/-- **What a run is answered.** -/
theorem execute_looked (hr : Returns o rounds hash answer) (h : execute inv o rounds = some e) :
    Looked inv inv.admission o rounds hash version answer e := by
  have hexecutes := h ▸ execute_executes inv o rounds
  generalize hx : some e = x at hexecutes
  cases hexecutes with
  | refused =>
    cases hx
    exact fun hmem => absurd hmem not_mem_nil
  | planned valid structured explicit =>
    have hadmission : inv.admission = Planned.admission inv :=
      funext fun target => funext fun c => if_pos ⟨structured, explicit⟩
    rw [hadmission]
    exact Planned.run_looked hr hx.symm
  | simple valid plain =>
    have hadmission : inv.admission
        = fun target c => admitCachedResult inv.parseURL target c inv.call :=
      funext fun target => funext fun c => if_neg plain
    rw [hadmission]
    exact Simple.run_looked hr hx.symm

end HardenLlm.Runtime
