import HardenLlm.Runtime.Validated
/-!
# What a run writes to the cache

A run writes at most once, when it succeeds. What it writes is the answer
it returns, under the key of a generation it prepared, and a generation is
its own producer.
-/

namespace HardenLlm.Runtime

open List

variable {A : Type} [Amounts A] {inv : Invocation A} {o : Opening A} {rounds : ℕ → Round A}
  {hash version : String} {cached : CachedResult A} {e : Ending A} {result : ProviderResult A}
  {branch : Branch}

/-- A request that was prepared, and its key. -/
def Keyed (o : Opening A) (rounds : ℕ → Round A) (p : PreparedOperation) (hash : String) : Prop :=
  (o.prepared = .ok p ∧ o.hashed = .ok hash)
    ∨ ∃ n, (rounds n).prepared = .ok p ∧ (rounds n).hashed = .ok hash

/-- The target is that of a generation with this key. -/
def KeyedTarget (o : Opening A) (rounds : ℕ → Round A) (hash : String) (target : ExecutionTarget) :
    Prop :=
  ∃ p, ∃ connection : Connection A, Keyed o rounds p hash
    ∧ target = targetFromPrepared connection (withCacheDomain p connection)

/-- What is not written yet. -/
def Unstored (actions : List (Action A)) : Prop := ∀ hash version cached,
  .store hash version cached ∉ actions

omit [Amounts A] in
theorem Quiet.unstored {actions : List (Action A)} (h : Quiet actions) : Unstored actions :=
  h.store_notMem

omit [Amounts A] in
theorem Unstored.append {actions more : List (Action A)} (h : Unstored actions)
    (h' : Unstored more) : Unstored (actions ++ more) :=
  fun _ _ _ hs => (mem_append.1 hs).elim (h _ _ _) (h' _ _ _)

omit [Amounts A] in
theorem unstored_attempt (x : Execution A) : Unstored [.attempt x] := by
  intro _ _ _ hs
  cases mem_singleton.1 hs

/-- **The answer of a run, as it is in the cache.** -/
structure Wrote (inv : Invocation A) (o : Opening A) (rounds : ℕ → Round A) (record : CallRecord A)
    (hash : String) (cached : CachedResult A) : Prop where
  output : record.output = cached.providerResult.output
  assistantText : record.assistantText = cached.providerResult.assistantText
  search : record.search = cached.providerResult.search
  ledger : record.accounting.result = cached.providerResult.accounting
  source : ∃ n, record.resultSource = .provider n cached.producer
  valid : validateLedger cached.providerResult.accounting = none
  accepted : acceptedOutput cached.providerResult.output = true
  structured : inv.call.callType = .structured → ∃ validate,
    inv.call.validateStructured = some validate ∧ validate cached.providerResult.output = none
  generation : KeyedTarget o rounds hash cached.generationTarget
  completed : cached.completedBy = .repair
    ∨ (cached.completedBy = .generation ∧ cached.producer = cached.generationTarget)

/-- The deferred end of a run leaves the answer alone. -/
theorem wrote_finish {run : RunState A} {err : Option Fault} {elapsed : ℤ}
    {last : RunState A → RunState A} (h : Wrote inv o rounds run.record hash cached) :
    Wrote inv o rounds (run.finish inv err branch elapsed last).record hash cached :=
  { h with }

/-- **A run that wrote** succeeded with what it wrote. -/
def Stored (inv : Invocation A) (o : Opening A) (rounds : ℕ → Round A) (hash version : String)
    (cached : CachedResult A) (e : Ending A) : Prop :=
  .store hash version cached ∈ e.actions →
    e.err = none ∧ version = inv.version ∧ Wrote inv o rounds e.record hash cached

theorem stored_of_unstored (h : Unstored e.actions) :
    Stored inv o rounds hash version cached e := fun hs => absurd hs (h _ _ _)

/-! ## Writing, without a plan -/

namespace Simple

variable {s : State A} {r : Round A}

/-- The entry of an admitted result. -/
theorem wrote_admitted {run : RunState A} {number : ℕ} {target : ExecutionTarget}
    (hunstored : Unstored run.actions) (htext : run.record.assistantText = result.assistantText)
    (hsound : admitResult inv.parseURL result inv.call.callType inv.call.validateStructured = none)
    (hkeyed : inv.cacheMode ≠ .off → KeyedTarget o rounds run.record.cache.operationHash target)
    (h : .store hash version cached ∈ (admitted inv run r result number target).actions) :
    version = inv.version
      ∧ Wrote inv o rounds (admitted inv run r result number target).record hash cached := by
  obtain ⟨hledger, houtput, -, hstructured⟩ := admitResult_eq_none hsound
  unfold admitted at h ⊢
  dsimp only at h ⊢
  split at h
  · exact absurd h (hunstored _ _ _)
  · rename_i hmode
    rw [if_neg hmode]
    rcases mem_append.1 h with h | h
    · exact absurd h (hunstored _ _ _)
    · cases mem_singleton.1 h
      exact ⟨rfl, rfl, htext, or_or_self.symm, rfl, ⟨number, rfl⟩, hledger, houtput, hstructured,
        hkeyed hmode, .inr ⟨rfl, rfl⟩⟩

/-- The loop before its end: nothing is written, and the generation has
its key. -/
structure Writing (inv : Invocation A) (o : Opening A) (s : State A) : Prop where
  unstored : Unstored s.run.actions
  prepared : ∃ p, o.prepared = .ok p ∧ s.prepared = request inv p
  keyed : inv.cacheMode ≠ .off → o.hashed = .ok s.run.record.cache.operationHash

theorem Writing.attempted (h : Writing inv o s) : Unstored (tried inv s r).run.actions := by
  rw [tried_actions]
  exact h.unstored.append (unstored_attempt _)

/-- **What a call without a plan writes.** -/
theorem run_stored (h : run inv o rounds = some e) : Stored inv o rounds hash version cached e := by
  refine run_rule (Q := Stored inv o rounds hash version cached) (fun _ s => Writing inv o s)
    ?_ ?_ ?_ ?_ h
  · intro r hstarts
    refine stored_of_unstored ?_
    rw [close_actions]
    exact hstarts.quiet_stop.unstored
  · intro s hstarts
    have hunstored := hstarts.quiet_next.unstored
    cases hstarts with
    | ready prepared requests consults actions accumulator search keyed =>
      exact ⟨hunstored, ⟨_, prepared, rfl⟩, keyed⟩
  · intro n s s' hw hmoves
    cases hmoves with
    | retried failure retryable notLast actions accumulator search cache =>
      refine ⟨actions ▸ hw.attempted, hw.prepared, fun hmode => ?_⟩
      rw [cache, tried_cache]
      exact hw.keyed hmode
  · intro n s r hw hmoves
    cases hmoves with
    | accepted sound =>
      intro hs
      rw [close_actions] at hs
      have hkeyed : inv.cacheMode ≠ .off → KeyedTarget o rounds
          (tried inv s (rounds n)).run.record.cache.operationHash
          (targetFromPrepared inv.connection s.prepared) := by
        intro hmode
        obtain ⟨p, hp, hrequest⟩ := hw.prepared
        rw [tried_cache, hrequest]
        exact ⟨p, inv.connection, .inl ⟨hp, hw.keyed hmode⟩, rfl⟩
      obtain ⟨hversion, hwrote⟩ :=
        wrote_admitted hw.attempted tried_assistantText (admits_of_sound sound) hkeyed hs
      exact ⟨rfl, hversion, wrote_finish hwrote⟩
    | unattempted => exact stored_of_unstored (close_actions ▸ hw.unstored)
    | terminal => exact stored_of_unstored (close_actions ▸ hw.attempted)
    | gaveUp failure retryable actions =>
      refine stored_of_unstored ?_
      rw [close_actions, actions]
      exact hw.attempted

end Simple

/-! ## Writing, with a plan -/

namespace Planned

variable {s : State A} {r : Round A} {history : List RepairHistoryEntry} {n : ℕ}

/-- **The generation of a branch** has its key, and where it is under way
it is what is dispatched. -/
structure Generates (inv : Invocation A) (o : Opening A) (rounds : ℕ → Round A)
    (w : PlannedWork A) : Prop where
  keyed : inv.cacheMode ≠ .off → KeyedTarget o rounds w.generationHash w.generationTarget
  own : w.call.repair = none → w.generationTarget = targetFromPrepared w.connection w.prepared

omit [Amounts A] in
/-- The work of a generation, once it has its key. -/
theorem generates_preparePlannedWork {selected : ResolvedConnection A} {call : Call A}
    {stage : Stage} {target : Option RecoveryTarget} {repair : Option RepairRequest}
    {answer : Except Fault PreparedOperation} {w : PlannedWork A}
    (h : (preparePlannedWork selected call branch stage target repair answer).work = .ok w)
    (hkeyed : inv.cacheMode ≠ .off → ∀ p, answer = .ok p → Keyed o rounds p hash) :
    Generates inv o rounds { w with generationHash := hash } := by
  obtain ⟨binding, prepared, -, hanswer, rfl⟩ := preparePlannedWork_work h
  exact ⟨fun hmode => ⟨prepared, binding.connection, hkeyed hmode _ hanswer, rfl⟩, fun _ => rfl⟩

omit [Amounts A] in
/-- The next stage belongs to the same generation, or to a new one. -/
theorem Generates.advanced {attempt : ℕ} {current next : PlannedWork A} {p : Prepared A}
    (h : Generates inv o rounds current)
    (hp : inv.prepareNextPlannedWork current history attempt (rounds n).prepared = some p)
    (hnext : p.work = .ok next)
    (hkeyed : if next.branch = current.branch then hash = next.generationHash else inv.cacheMode ≠
      .off → (rounds n).hashed = .ok hash) :
    Generates inv o rounds { next with generationHash := hash } := by
  have hprepares := prepareNextPlannedWork_prepares hp
  cases hprepares with
  | rerun hrerun =>
    have hbranch : next.branch ≠ current.branch := by
      rw [(preparePlannedWork_identity hnext).1, Policy.original_of_next hrerun]
      decide
    rw [if_neg hbranch] at hkeyed
    exact generates_preparePlannedWork hnext fun hmode p hanswer =>
      .inr ⟨n, hanswer, hkeyed hmode⟩
  | repair hstage repairs actions works =>
    obtain ⟨repair, hrepair, rfl⟩ := works next hnext
    obtain ⟨hbranch, -, hrequest, -⟩ := preparePlannedWork_identity hrepair
    have hsame : (repair.carries current).branch = current.branch := hbranch
    rw [if_pos hsame] at hkeyed
    subst hkeyed
    refine ⟨h.keyed, fun hnone => ?_⟩
    change repair.call.repair = none at hnone
    rw [hrequest] at hnone
    cases hnone

/-- The entry of an admitted result. -/
theorem wrote_admitted {run : RunState A} {w : PlannedWork A} {number : ℕ}
    (hunstored : Unstored run.actions) (htext : run.record.assistantText = result.assistantText)
    (hsound : admitResult inv.parseURL result inv.call.callType inv.call.validateStructured = none)
    (hw : Generates inv o rounds w)
    (h : .store hash version cached ∈ (admitted inv run r w result number).actions) :
    version = inv.version
      ∧ Wrote inv o rounds (admitted inv run r w result number).record hash cached := by
  obtain ⟨hledger, houtput, -, hstructured⟩ := admitResult_eq_none hsound
  have hcompleted : (if w.call.repair.isSome then CompletedBy.repair else .generation) = .repair
      ∨ ((if w.call.repair.isSome then CompletedBy.repair else .generation) = .generation
        ∧ targetFromPrepared w.connection w.prepared = w.generationTarget) := by
    cases hrepair : w.call.repair with
    | none => exact .inr ⟨rfl, (hw.own hrepair).symm⟩
    | some => exact .inl rfl
  unfold admitted at h ⊢
  dsimp only at h ⊢
  split at h
  · exact absurd h (hunstored _ _ _)
  rename_i hmode
  rw [if_neg hmode]
  -- Whether the write succeeds or not, the entry and the answer are the same.
  split at h <;> rename_i hstored <;> [rw [if_pos hstored]; rw [if_neg hstored]]
  all_goals
    rcases mem_append.1 h with h | h
    · exact absurd h (hunstored _ _ _)
    · cases mem_singleton.1 h
      exact ⟨rfl, rfl, htext, or_or_self.symm, rfl, ⟨number, rfl⟩, hledger, houtput, hstructured,
        hw.keyed hmode, hcompleted⟩

/-- The plan before its end. -/
structure Writing (inv : Invocation A) (o : Opening A) (rounds : ℕ → Round A) (s : State A) : Prop
    where
  unstored : Unstored s.run.actions
  kept : s.work.Kept inv
  generates : Generates inv o rounds s.work

section

variable (h : Writing inv o rounds s)
include h

theorem Writing.attempted : Unstored (tried inv s r).run.actions := by
  rw [tried_actions]
  exact h.unstored.append (unstored_attempt _)

/-- Nothing is written while the next stage is prepared. -/
theorem Writing.asked {attempt : ℕ} {p : Prepared A} {looked : List (Action A)}
    (hp : inv.prepareNextPlannedWork s.work history attempt r.prepared = some p)
    (hlooked : Lookups looked) : Unstored ((tried inv s r).run.actions ++ p.actions ++ looked) :=
  (h.attempted.append (prepareNextPlannedWork_prepares hp).requests.quiet.unstored).append
    hlooked.quiet.unstored

theorem Writing.next {s' : State A}
    (hmoves : Moves inv s (rounds n) (.next s')) : Writing inv o rounds s' := by
  cases hmoves with
  | retried left failure retryable syntactic actions =>
    exact ⟨actions ▸ h.attempted, h.kept, h.generates⟩
  | advanced hash looked left failure semantic prepared ready consults actions accumulator search
      keyed =>
    have hkept := (prepareNextPlannedWork_prepares prepared).kept h.kept ready
    exact ⟨actions ▸ h.asked prepared consults.lookups, ⟨hkept.call, hkept.generation⟩,
      h.generates.advanced prepared ready keyed⟩

theorem Writing.stop {stop : Stop A}
    (hmoves : Moves inv s (rounds n) (.stop stop)) :
    Stored inv o rounds hash version cached (close inv o stop) := by
  have hnone {stop : Stop A} (hu : Unstored stop.run.actions) :
      Stored inv o rounds hash version cached (close inv o stop) :=
    stored_of_unstored (close_actions ▸ hu)
  cases hmoves with
  | unattempted actions => exact hnone (actions ▸ h.unstored)
  | accepted allowed sound =>
    intro hs
    rw [close_actions] at hs
    obtain ⟨hversion, hwrote⟩ := wrote_admitted h.attempted tried_assistantText
      (admits_of_sound h.kept sound) h.generates hs
    exact ⟨rfl, hversion, wrote_finish hwrote⟩
  | interrupted allowed failure ended actions | terminal allowed failure active actions
  | gaveUp allowed failure retryable syntactic actions => exact hnone (actions ▸ h.attempted)
  | stalled looked left failure semantic prepared ready consults actions =>
    exact hnone (actions ▸ h.asked prepared consults.lookups)
  | served left failure semantic prepared ready reruns keyed answer admitted serves actions =>
    exact hnone (actions ▸ h.asked prepared (lookups_singleton _ _))

end

/-- **What a call with a plan writes.** -/
theorem run_stored (h : executeRecoveryPlan inv o rounds = some e) :
    Stored inv o rounds hash version cached e := by
  refine run_rule (Q := Stored inv o rounds hash version cached)
    (fun _ s => Writing inv o rounds s) ?_ ?_ ?_ ?_ ?_ h
  · exact fun _ _ hs => absurd hs not_mem_nil
  · intro stop hstarts
    refine stored_of_unstored ?_
    rw [close_actions]
    cases hstarts with
    | failed looked prepared stops consults actions =>
      exact actions ▸ (generation_requests.quiet.append consults.lookups.quiet).unstored
    | served prepared keyed answer admitted serves actions =>
      exact actions ▸ (generation_requests.quiet.append (lookups_singleton _ _).quiet).unstored
  · intro s hstarts
    cases hstarts with
    | ready hash looked valid prepared consults actions accumulator search keyed =>
      have hkept := kept_preparePlannedWork (sameContract_baseCall inv) prepared
      refine ⟨?_, ⟨hkept.call, hkept.generation⟩, ?_⟩
      · exact actions ▸ (generation_requests.quiet.append consults.lookups.quiet).unstored
      · exact generates_preparePlannedWork prepared fun hmode p hanswer =>
          .inl ⟨hanswer, keyed hmode⟩
  · exact fun n s s' hw hmoves => hw.next hmoves
  · exact fun n s stop hw hmoves => hw.stop hmoves

end Planned

/-- **What a run writes.** -/
theorem execute_stored (h : execute inv o rounds = some e) :
    Stored inv o rounds hash version cached e := by
  have hexecutes := h ▸ execute_executes inv o rounds
  generalize hx : some e = x at hexecutes
  cases hexecutes with
  | refused =>
    cases hx
    exact fun hs => absurd hs not_mem_nil
  | planned => exact Planned.run_stored hx.symm
  | simple => exact Simple.run_stored hx.symm

end HardenLlm.Runtime
