import HardenLlm.Runtime.Steps.Planned
/-!
# How a call is carried out

A call is refused, or it runs through one of the two loops, and it
returns.
-/

namespace HardenLlm.Runtime

variable {A : Type} {inv : Invocation A}

/-! ## Runs -/

section Runs

variable [Amounts A] {o : Opening A} {rounds : ℕ → Round A} {e : Ending A}

/-- **How a call is carried out.** -/
inductive Executes (inv : Invocation A) (o : Opening A) (rounds : ℕ → Round A) :
    Option (Ending A) → Prop
  /-- It is not begun. -/
  | refused (f : Fault) : Executes inv o rounds (some ⟨zeroRecord, some f, [], []⟩)
  | planned (valid : inv.policy.validate = none) (structured : inv.call.callType = .structured)
      (explicit : inv.policy.usesExplicitPlan = true) :
      Executes inv o rounds (executeRecoveryPlan inv o rounds)
  | simple (valid : inv.policy.validate = none)
      (plain : ¬ (inv.call.callType = .structured ∧ inv.policy.usesExplicitPlan = true)) :
      Executes inv o rounds (Simple.run inv o rounds)

theorem execute_executes (inv : Invocation A) (o : Opening A) (rounds : ℕ → Round A) :
    Executes inv o rounds (execute inv o rounds) := by
  unfold execute
  dsimp only
  split
  · exact .refused _
  rename_i hvalid
  split
  · exact .refused _
  split
  · exact .refused _
  split
  · rename_i hplan
    exact .planned hvalid hplan.1 hplan.2
  · rename_i hplain
    exact .simple hvalid hplain

omit [Amounts A] in
/-- A policy that is in order allows an attempt. -/
theorem maxAttempts_pos (h : inv.policy.validate = none) : 0 < inv.policy.maxAttempts := by
  unfold Policy.validate at h
  dsimp only at h
  split at h
  · cases h
  · omega

/-- **Every call returns.** -/
theorem execute_returns (inv : Invocation A) (o : Opening A) (rounds : ℕ → Round A) :
    ∃ e, execute inv o rounds = some e := by
  have h := execute_executes inv o rounds
  generalize execute inv o rounds = e at h ⊢
  cases h with
  | refused => exact ⟨_, rfl⟩
  | planned => exact Planned.run_returns inv o rounds
  | simple valid => exact Simple.run_returns (maxAttempts_pos valid) o rounds

end Runs

end HardenLlm.Runtime
