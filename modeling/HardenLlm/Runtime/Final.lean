import HardenLlm.Runtime.Steps
/-!
# Failures that end a call

Whatever the policy, some failures are neither retried nor repaired. The
attempt that fails with one is the last of its call, and the call returns
the failure, or the end of its context in its place.
-/

namespace HardenLlm.Runtime

open List

variable {A : Type} {f : Fault}

/-- **A terminal failure**, under every policy. -/
def Fault.Terminal (f : Fault) : Prop :=
  ∀ policy, (classify (some f) policy).retryable = false
    ∧ (classify (some f) policy).category ≠ .parse

theorem terminal_of_isContext (h : f.isContext = true) : f.Terminal := by
  intro policy
  unfold classify
  dsimp only
  split
  · simp
  rename_i hcanceled
  have hdeadline : f.isDeadline = true := by simpa [Fault.isContext, hcanceled] using h
  simp [hdeadline]

/-- The context's own errors are found at once. -/
theorem isContext_of_contextError {deadline : Option ℤ} {r : Reading}
    (h : executionContextError deadline r = some f) : f = .canceled ∨ f = .deadlineExceeded := by
  unfold executionContextError at h
  split at h
  · rename_i e _
    cases e <;> cases h <;> simp [ContextError.fault]
  · split at h <;> cases h
    exact .inr rfl

theorem terminal_of_contextError {deadline : Option ℤ} {r : Reading}
    (h : executionContextError deadline r = some f) : f.Terminal := by
  refine terminal_of_isContext ?_
  rcases isContext_of_contextError h with rfl | rfl <;> rfl

variable [Amounts A] {o : Opening A} {e : Ending A}

/-- The accounting of an attempt, from what was noted before it. -/
def Execution.settled (x : Execution A) (r : Round A) : Settled A :=
  settle x.connection x.accumulator r.result r.failure

/-- **An attempt that ends its call.** -/
def Execution.Final (rounds : ℕ → Round A) (x : Execution A) (f : Fault) : Prop :=
  (x.settled (rounds (x.number - 1))).failure = some f ∧ f.Terminal

/-- None of these attempts ended the call. -/
def Going (rounds : ℕ → Round A) (n : ℕ) (runs : List (Execution A)) : Prop :=
  ∀ x ∈ runs, x.number ≤ n ∧ ∀ f, ¬ x.Final rounds f

/-- **An attempt that ends its call is the last one**, and the call
returns its failure. -/
def Ends (inv : Invocation A) (rounds : ℕ → Round A) (runs : List (Execution A)) (err : Option Fault) :
    Prop :=
  ∀ x ∈ runs, ∀ f, x.Final rounds f → (∀ y ∈ runs, y.number ≤ x.number)
    ∧ err = (executionContextError inv.deadline (rounds (x.number - 1)).settled).or (some f)

section Attempts

variable {inv : Invocation A} {rounds : ℕ → Round A} {n : ℕ} {runs : List (Execution A)}
  {x : Execution A} {err : Option Fault}

theorem going_nil : Going rounds n ([] : List (Execution A)) :=
  fun _ h => absurd h not_mem_nil

theorem Going.ends (h : Going rounds n runs) : Ends inv rounds runs err :=
  fun x hx f hf => absurd hf ((h x hx).2 f)

/-- One attempt more, which did not end the call. -/
theorem Going.snoc (h : Going rounds n runs) (hnumber : x.number = n + 1)
    (hx : ∀ f, ¬ x.Final rounds f) : Going rounds (n + 1) (runs ++ [x]) := by
  intro y hy
  rcases mem_append.1 hy with hy | hy
  · exact ⟨(h y hy).1.trans (Nat.le_succ n), (h y hy).2⟩
  · rw [mem_singleton.1 hy]
    exact ⟨hnumber.le, hx⟩

/-- The last attempt. -/
theorem Going.last (h : Going rounds n runs) (hnumber : x.number = n + 1)
    (herr : ∀ f, x.Final rounds f →
      err = (executionContextError inv.deadline (rounds n).settled).or (some f)) :
    Ends inv rounds (runs ++ [x]) err := by
  intro y hy f hf
  rcases mem_append.1 hy with hy | hy
  · exact absurd hf ((h y hy).2 f)
  · rw [mem_singleton.1 hy] at hf ⊢
    refine ⟨fun z hz => ?_, by rw [hnumber]; exact herr f hf⟩
    rcases mem_append.1 hz with hz | hz
    · exact (h z hz).1.trans (hnumber ▸ Nat.le_succ n)
    · rw [mem_singleton.1 hz]

end Attempts

/-! ## The simple loop -/

namespace Simple

variable {inv : Invocation A} {s : State A} {r : Round A} {rounds : ℕ → Round A}

/-- A failure that is settled is the attempt's, unless the context
ended. -/
theorem failure_of_settled (h : (settled inv s r).failure = some f) :
    (tried inv s r).failure = (executionContextError inv.deadline r.settled).or (some f) := by
  have hjudged : (judge inv (settled inv s r)).1 = some f := by simp [judge, h]
  rw [tried_failure, hjudged]

/-- What the log says of an attempt that ended the call. -/
theorem final_execution (h : (execution inv s (rounds s.number)).Final rounds f) :
    (settled inv s (rounds s.number)).failure = some f ∧ f.Terminal := h

/-- A terminal failure is not retried. -/
theorem not_retryable (h : (settled inv s r).failure = some f) (hf : f.Terminal) :
    (tried inv s r).classification.retryable = false := by
  rw [tried_classification, failure_of_settled h]
  cases hctx : executionContextError inv.deadline r.settled with
  | none => exact (hf inv.policy).1
  | some => exact (terminal_of_contextError hctx inv.policy).1

/-- **A terminal failure ends the simple loop.** -/
theorem run_ends (h : run inv o rounds = some e) :
    Ends inv rounds (executions e.actions) e.err := by
  refine run_rule (Q := fun e => Ends inv rounds (executions e.actions) e.err)
    (fun n s => s.number = n ∧ Going rounds n (executions s.run.actions)) ?_ ?_ ?_ ?_ h
  · intro r hstarts
    rw [close_actions]
    rw [executions_of_quiet hstarts.quiet_stop]
    exact (going_nil (n := 0)).ends
  · intro s hstarts
    have hnone := executions_of_quiet hstarts.quiet_next
    cases hstarts with
    | ready =>
      refine ⟨rfl, ?_⟩
      rw [hnone]
      exact going_nil
  · rintro n s s' ⟨rfl, hgoing⟩ hmoves
    cases hmoves with
    | retried failure retryable notLast actions =>
      refine ⟨rfl, ?_⟩
      dsimp only
      rw [actions, executions_tried]
      refine hgoing.snoc rfl fun f hf => ?_
      obtain ⟨hsettled, hterminal⟩ := final_execution hf
      exact absurd retryable (Bool.eq_false_iff.1 (not_retryable hsettled hterminal))
  · rintro n s r ⟨rfl, hgoing⟩ hmoves
    rw [close_actions]
    cases hmoves with
    | unattempted => exact hgoing.ends
    | accepted sound =>
      obtain ⟨stored, hactions, hstored⟩ := admitted_actions inv (tried inv s (rounds s.number)).run
        (rounds s.number) (tried inv s (rounds s.number)).result (s.number + 1)
        (targetFromPrepared inv.connection s.prepared)
      dsimp only
      rw [hactions, executions_append, executions_stores hstored, append_nil, executions_tried]
      refine hgoing.last rfl fun f hf => ?_
      rw [failure_of_settled (final_execution hf).1, Option.or_eq_none_iff] at sound
      cases sound.2
    | terminal failure =>
      dsimp only
      rw [executions_tried]
      exact hgoing.last rfl fun f hf =>
        failure.symm.trans (failure_of_settled (final_execution hf).1)
    | gaveUp failure retryable actions =>
      dsimp only
      rw [actions, executions_tried]
      refine hgoing.last rfl fun f hf => ?_
      obtain ⟨hsettled, hterminal⟩ := final_execution hf
      exact absurd retryable (Bool.eq_false_iff.1 (not_retryable hsettled hterminal))

end Simple

/-! ## The recovery plan -/

namespace Planned

variable {inv : Invocation A} {s : State A} {r : Round A} {rounds : ℕ → Round A}

theorem failure_of_settled (h : (settled s r).failure = some f) :
    (tried inv s r).verdict.failure = some f := by
  rw [tried_verdict]
  simp [judge, h]

/-- A terminal failure is neither retried nor repaired. -/
theorem not_semantic (inv : Invocation A) (h : (settled s r).failure = some f) (hf : f.Terminal) :
    ¬ Semantic inv s r ∧ (tried inv s r).classification.retryable = false := by
  have hsemantic : semanticParse (tried inv s r).verdict.failure
      (classify (tried inv s r).verdict.failure inv.policy) = false := by
    rw [failure_of_settled h]
    simpa [semanticParse] using (hf inv.policy).2
  refine ⟨Bool.eq_false_iff.1 hsemantic, ?_⟩
  rw [tried_classification, planned, hsemantic, failure_of_settled h]
  simpa using (hf inv.policy).1

/-- What the log says of an attempt that ended the call. -/
theorem final_execution (h : (execution inv s (rounds s.attempt)).Final rounds f) :
    (settled s (rounds s.attempt)).failure = some f ∧ f.Terminal := h

/-- An attempt after which the call went on had no terminal failure. -/
theorem not_final (h : Semantic inv s (rounds s.attempt)
      ∨ (tried inv s (rounds s.attempt)).classification.retryable = true) (f : Fault) :
    ¬ (execution inv s (rounds s.attempt)).Final rounds f := by
  intro hf
  obtain ⟨hsettled, hterminal⟩ := final_execution hf
  obtain ⟨hsyntactic, hretryable⟩ := not_semantic inv hsettled hterminal
  rcases h with h | h
  · exact hsyntactic h
  · exact absurd h (Bool.eq_false_iff.1 hretryable)

/-- **An attempt that goes on** was not the last. -/
theorem going_next {s' : State A} (h : Going rounds s.attempt (executions s.run.actions))
    (hmoves : Moves inv s (rounds s.attempt) (.next s')) :
    s'.attempt = s.attempt + 1 ∧ Going rounds (s.attempt + 1) (executions s'.run.actions) := by
  cases hmoves with
  | retried left failure retryable syntactic actions =>
    refine ⟨rfl, ?_⟩
    dsimp only
    rw [actions, executions_tried]
    exact h.snoc rfl (not_final (.inr retryable))
  | advanced hash looked left failure semantic prepared ready consults actions accumulator search
      keyed =>
    refine ⟨rfl, ?_⟩
    dsimp only
    rw [executions_advanced prepared consults.lookups actions]
    exact h.snoc rfl (not_final (.inl semantic))

/-- **An attempt that ends the run.** -/
theorem going_stop {stop : Stop A} (h : Going rounds s.attempt (executions s.run.actions))
    (hmoves : Moves inv s (rounds s.attempt) (.stop stop)) :
    Ends inv rounds (executions stop.run.actions) stop.err := by
  cases hmoves with
  | unattempted actions => exact actions ▸ h.ends
  | accepted allowed sound =>
    dsimp only
    rw [executions_admitted, executions_tried]
    refine h.last rfl fun f hf => ?_
    rw [failure_of_settled (final_execution hf).1] at sound
    cases sound
  | interrupted allowed failure ended actions =>
    dsimp only
    rw [actions, executions_tried]
    refine h.last rfl fun f hf => ?_
    rw [ended]
    rfl
  | terminal allowed failure active actions =>
    dsimp only
    rw [actions, executions_tried]
    refine h.last rfl fun f hf => ?_
    rw [active, ← failure, failure_of_settled (final_execution hf).1]
    rfl
  | gaveUp allowed failure retryable syntactic actions =>
    dsimp only
    rw [actions, executions_tried]
    exact h.last rfl fun f hf => absurd hf (not_final (.inr retryable) f)
  | stalled looked left failure semantic prepared ready consults actions =>
    dsimp only
    rw [executions_advanced prepared consults.lookups actions]
    exact h.last rfl fun f hf => absurd hf (not_final (.inl semantic) f)
  | served left failure semantic prepared ready reruns keyed answer admitted serves actions =>
    dsimp only
    rw [executions_advanced prepared (lookups_singleton _ _) actions]
    exact h.last rfl fun f hf => absurd hf (not_final (.inl semantic) f)

/-- **A terminal failure ends the plan.** -/
theorem run_ends (h : executeRecoveryPlan inv o rounds = some e) :
    Ends inv rounds (executions e.actions) e.err := by
  refine run_rule (Q := fun e => Ends inv rounds (executions e.actions) e.err)
    (fun n s => s.attempt = n ∧ Going rounds n (executions s.run.actions)) ?_ ?_ ?_ ?_ ?_ h
  · exact fun _ _ => (going_nil (n := 0)).ends
  · intro stop hstarts
    rw [close_actions]
    have hnone : executions stop.run.actions = [] := by
      cases hstarts with
      | failed looked prepared stops consults actions => exact actions ▸ executions_generation consults.lookups
      | served prepared keyed answer admitted serves actions =>
        exact actions ▸ executions_generation (lookups_singleton _ _)
    rw [hnone]
    exact (going_nil (n := 0)).ends
  · intro s hstarts
    cases hstarts with
    | ready hash looked valid prepared consults actions =>
      refine ⟨rfl, ?_⟩
      dsimp only
      rw [actions, executions_generation consults.lookups]
      exact going_nil
  · rintro n s s' ⟨rfl, hgoing⟩ hmoves
    exact going_next hgoing hmoves
  · rintro n s stop ⟨rfl, hgoing⟩ hmoves
    rw [close_actions]
    exact going_stop hgoing hmoves

end Planned

/-- **A terminal failure ends the call.** -/
theorem execute_ends {inv : Invocation A} {rounds : ℕ → Round A}
    (h : execute inv o rounds = some e) : Ends inv rounds (executions e.actions) e.err := by
  have hexecutes := execute_executes inv o rounds
  rw [h] at hexecutes
  generalize hx : some e = x at hexecutes
  cases hexecutes with
  | refused =>
    cases hx
    exact (going_nil (n := 0)).ends
  | planned => exact Planned.run_ends hx.symm
  | simple => exact Simple.run_ends hx.symm

end HardenLlm.Runtime
