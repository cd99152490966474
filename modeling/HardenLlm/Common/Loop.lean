import Mathlib.Data.Nat.Notation
import Mathlib.Tactic.Common
/-!
# Loops over a sequence of inputs

A loop whose body reads one input a round, and either goes on with a new
state or stops with a result. What the body keeps from round to round is
known when it stops; and a loop whose every round uses up some of a
measure does stop. A loop may keep a log, whose entries depend on those
before them.
-/

namespace HardenLlm

/-- What a round ends with. -/
inductive Turn (σ ρ : Type*)
  | next (s : σ)
  | stop (r : ρ)

namespace Loop

variable {σ ι ρ : Type*} (body : σ → ι → Turn σ ρ) (input : ℕ → ι)

/-- **The loop**, for at most `fuel` rounds; `n` counts those before. -/
def run : ℕ → ℕ → σ → Option ρ
  | 0, _, _ => none
  | fuel + 1, n, s =>
    match body s (input n) with
    | .stop r => some r
    | .next s' => run fuel (n + 1) s'

variable {body input} {n fuel : ℕ} {s : σ} {r : ρ}

/-- **The loop rule.** An invariant that every round keeps holds when the
loop stops, at the round that stops it. -/
theorem run_rule {I : ℕ → σ → Prop} {Q : ρ → Prop}
    (hnext : ∀ n s s', I n s → body s (input n) = .next s' → I (n + 1) s')
    (hstop : ∀ n s r, I n s → body s (input n) = .stop r → Q r) (hi : I n s)
    (h : run body input fuel n s = some r) : Q r := by
  induction fuel generalizing n s with
  | zero => cases h
  | succ fuel ih =>
    rw [run] at h
    split at h
    · rename_i hbody
      cases h
      exact hstop n s r hi hbody
    · rename_i s' hbody
      exact ih (hnext n s s' hi hbody) h

/-- **The loop stops.** Every round that goes on leaves less of the
measure. -/
theorem run_returns {I : ℕ → σ → Prop} {v : σ → ℕ}
    (hnext : ∀ n s s', I n s → body s (input n) = .next s' → I (n + 1) s' ∧ v s' < v s)
    (hi : I n s) (hv : v s < fuel) : ∃ r, run body input fuel n s = some r := by
  induction fuel generalizing n s with
  | zero => omega
  | succ fuel ih =>
    rw [run]
    split
    · exact ⟨_, rfl⟩
    · rename_i s' hbody
      obtain ⟨hi', hless⟩ := hnext n s s' hi hbody
      exact ih hi' (by omega)

end Loop

/-! ## Logs -/

section Logs

variable {α : Type*} {P : List α → α → Prop} {log : List α} {x : α}

/-- **A log**: every entry is as it should be after those before it. -/
def Logged (P : List α → α → Prop) (log : List α) : Prop :=
  ∀ before x after, log = before ++ x :: after → P before x

theorem logged_nil : Logged P [] := fun _ _ _ h => absurd h.symm (by simp)

/-- A log is extended at its end. -/
theorem Logged.snoc (h : Logged P log) (hx : P log x) : Logged P (log ++ [x]) := by
  intro before y after heq
  rcases List.eq_nil_or_concat after with rfl | ⟨rest, z, rfl⟩
  · obtain ⟨rfl, hy⟩ := List.append_inj' heq rfl
    cases hy
    exact hx
  · rw [List.concat_eq_append, ← List.cons_append, ← List.append_assoc] at heq
    obtain ⟨rfl, -⟩ := List.append_inj' heq rfl
    exact h before y rest rfl

end Logs

end HardenLlm
