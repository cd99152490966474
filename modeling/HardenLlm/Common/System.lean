import Mathlib.Logic.Relation
/-!
# Transition systems

The states a system can be in and the steps it can take, with the
induction over runs packaged once: a property of the initial states that
every step keeps holds of every reachable state, and a preorder that every
step respects is respected by every run.
-/

namespace HardenLlm

/-- **A transition system**: where it may start and how it may move. -/
structure System (σ : Type*) where
  init : σ → Prop
  step : σ → σ → Prop

namespace System

variable {σ : Type*} {S : System σ} {s s' s'' : σ}

/-- The states some run from an initial state ends in. -/
inductive Reach (S : System σ) : σ → Prop
  | init {s : σ} : S.init s → Reach S s
  | step {s s' : σ} : Reach S s → S.step s s' → Reach S s'

/-- A run: any number of steps. -/
def Run (S : System σ) : σ → σ → Prop := Relation.ReflTransGen S.step

theorem Run.refl (s : σ) : S.Run s s := Relation.ReflTransGen.refl

theorem Run.tail (h : S.Run s s') (hs : S.step s' s'') : S.Run s s'' :=
  Relation.ReflTransGen.tail h hs

theorem Run.single (h : S.step s s') : S.Run s s' := Relation.ReflTransGen.single h

theorem Run.trans (h : S.Run s s') (h' : S.Run s' s'') : S.Run s s'' :=
  Relation.ReflTransGen.trans h h'

theorem Reach.run (hr : S.Reach s) (h : S.Run s s') : S.Reach s' := by
  induction h with
  | refl => exact hr
  | tail _ hs ih => exact .step ih hs

/-- **Invariance.** What holds initially and survives every step taken
from a reachable state holds of every reachable state. -/
theorem Reach.invariant {P : σ → Prop} (hinit : ∀ s, S.init s → P s)
    (hstep : ∀ s s', S.Reach s → P s → S.step s s' → P s') (hr : S.Reach s) : P s := by
  induction hr with
  | init h => exact hinit _ h
  | step hr hs ih => exact hstep _ _ hr ih hs

/-- **Respect along runs.** A preorder that relates the ends of every step
taken from a reachable state relates the ends of every run from one. -/
theorem Run.respects {R : σ → σ → Prop} (hrefl : ∀ s, R s s)
    (htrans : ∀ s s' s'', R s s' → R s' s'' → R s s'')
    (hstep : ∀ s s', S.Reach s → S.step s s' → R s s')
    (hr : S.Reach s) (h : S.Run s s') : R s s' := by
  induction h with
  | refl => exact hrefl s
  | tail hrun hs ih => exact htrans _ _ _ ih (hstep _ _ (hr.run hrun) hs)

/-- **Stability along runs.** What survives every step taken from a
reachable state, once true, stays true. -/
theorem Run.stable {P : σ → Prop} (hstep : ∀ s s', S.Reach s → P s → S.step s s' → P s')
    (hr : S.Reach s) (hp : P s) (h : S.Run s s') : P s' := by
  induction h with
  | refl => exact hp
  | tail hrun hs ih => exact hstep _ _ (hr.run hrun) ih hs

/-! ## Simulation

A system whose steps are, seen through `f`, steps of another or no step at
all. -/

variable {τ : Type*} {T : System τ} {f : σ → τ}

/-- Every step is one step below or none. -/
def Simulates (S : System σ) (T : System τ) (f : σ → τ) : Prop :=
  (∀ s, S.init s → T.init (f s)) ∧
    ∀ s s', S.Reach s → S.step s s' → f s' = f s ∨ T.step (f s) (f s')

theorem Simulates.run (h : S.Simulates T f) (hr : S.Reach s) (hrun : S.Run s s') :
    T.Run (f s) (f s') := by
  induction hrun with
  | refl => exact .refl _
  | @tail s₁ s₂ hrun hs ih =>
    obtain heq | hstep := h.2 s₁ s₂ (hr.run hrun) hs
    · rw [heq]
      exact ih
    · exact ih.tail hstep

/-- **What is reachable above is reachable below.** -/
theorem Simulates.reach (h : S.Simulates T f) (hr : S.Reach s) : T.Reach (f s) := by
  induction hr with
  | init hi => exact .init (h.1 _ hi)
  | @step s₁ s₂ hr hs ih =>
    obtain heq | hstep := h.2 s₁ s₂ hr hs
    · rw [heq]
      exact ih
    · exact .step ih hstep

end System

end HardenLlm
