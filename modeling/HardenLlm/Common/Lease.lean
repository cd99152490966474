import Mathlib.Logic.Function.Basic
/-!
# Holders and leases

Two tables name each other: a resource names the lease that holds it, an
open lease names its resource. They agree when the two partial maps are
inverse to each other, which is what makes a holder unique. Taking a free
resource under a new lease and releasing it under its own keep them so.
-/

namespace HardenLlm

variable {ι π : Type*}

/-- **The holders of resources and the resources of open leases agree.** -/
def Leased (holder : ι → Option π) (lease : π → Option ι) : Prop :=
  ∀ i p, holder i = some p ↔ lease p = some i

namespace Leased

variable {holder : ι → Option π} {lease : π → Option ι} {i : ι} {p q : π}

/-- **A resource has one open lease**, the one its holder names. -/
theorem unique (h : Leased holder lease) (hp : lease p = some i) (hq : lease q = some i) :
    p = q := by
  have hp := (h i p).2 hp
  have hq := (h i q).2 hq
  rw [hp] at hq
  exact Option.some.inj hq

variable [DecidableEq ι] [DecidableEq π]

/-- Taking a free resource under a lease not yet open. -/
theorem take (h : Leased holder lease) (hi : holder i = none) (hp : lease p = none) :
    Leased (Function.update holder i (some p)) (Function.update lease p (some i)) := by
  intro j q
  by_cases hj : j = i <;> by_cases hq : q = p
  · simp [hj, hq]
  · subst hj
    have hfree : lease q ≠ some j := by
      intro hl
      rw [← h, hi] at hl
      cases hl
    simp [hq, hfree, Ne.symm hq]
  · subst hq
    have hclosed : holder j ≠ some q := by
      intro hl
      rw [h, hp] at hl
      cases hl
    simp [hj, hclosed, Ne.symm hj]
  · simpa [hj, hq] using h j q

/-- Releasing a resource together with the lease that holds it. -/
theorem release (h : Leased holder lease) (hi : holder i = some p) :
    Leased (Function.update holder i none) (Function.update lease p none) := by
  intro j q
  by_cases hj : j = i <;> by_cases hq : q = p
  · simp [hj, hq]
  · subst hj
    have hother : lease q ≠ some j := fun hl => hq (h.unique hl ((h j p).1 hi))
    simp [hq, hother]
  · subst hq
    have hother : holder j ≠ some q := by
      intro hl
      have hj' := (h j q).1 hl
      rw [(h i q).1 hi] at hj'
      exact hj (Option.some.inj hj').symm
    simp [hj, hother]
  · simpa [hj, hq] using h j q

end Leased

end HardenLlm
