import HardenLlm.Runtime.Accounting
/-!
# Usages add up in any order

What `AddUsage` returns for valid usages, added in any order and bracketed
in any way, is their **total**: the sum of every component, partial if one
of them is. It fails exactly when the total does not fit an `int64`: the
sum of a part never exceeds the sum of the whole, so no overflow on the
way is one the whole would not have had.
-/

namespace HardenLlm.Runtime

open List

namespace Usage

/-- **The total of some usages**: unavailable if none was measured, and
complete only if no measured one is partial. -/
def total (us : List Usage) : Usage :=
  { inputTokens := (us.map inputTokens).sum
    cacheReadTokens := (us.map cacheReadTokens).sum
    cacheCreationTokens := (us.map cacheCreationTokens).sum
    outputTokens := (us.map outputTokens).sum
    reasoningTokens := (us.map reasoningTokens).sum
    status := if us.all (·.status = .unavailable) then .unavailable
      else if us.any (·.status = .partially) then .partially else .complete }

variable {u : Usage} {us left right : List Usage}

theorem total_perm (h : left.Perm right) : total left = total right := by
  simp only [total, (h.map _).sum_eq, h.all_eq, h.any_eq]

theorem tokens_total (us : List Usage) : (total us).tokens = (us.map tokens).sum := by
  induction us with
  | nil => rfl
  | cons u us ih =>
    simp only [tokens, components, total, map_cons, sum_cons, sum_nil] at ih ⊢
    omega

theorem total_nonneg (h : ∀ u ∈ us, u.validate = true) : 0 ≤ (total us).tokens := by
  rw [tokens_total]
  refine sum_nonneg fun n hn => ?_
  obtain ⟨u, hu, rfl⟩ := mem_map.1 hn
  exact tokens_nonneg (h u hu)

/-- A valid unavailable usage counts nothing. -/
theorem eq_unavailable (h : u.validate = true) (hu : u.status = .unavailable) :
    u = unavailableUsage := by
  obtain ⟨hneg, -, hstatus⟩ := validate_iff.1 h
  simp only [hu, tokens, components, sum_cons, sum_nil, mem_cons, not_mem_nil,
    or_false, forall_eq_or_imp, forall_eq, reduceCtorEq, true_and, false_or] at hneg hstatus
  obtain ⟨h1, h2, h3, h4, h5⟩ := hneg
  cases u
  simp only [unavailableUsage, mk.injEq] at *
  exact ⟨by omega, by omega, by omega, by omega, by omega, hu⟩

theorem total_singleton (h : u.validate = true) : total [u] = u := by
  obtain ⟨-, -, hs | hs | ⟨hs, -⟩⟩ := validate_iff.1 h <;> cases u <;> simp_all [total]

/-- An unavailable total is the total of no tokens at all. -/
theorem total_unavailable (h : ∀ u ∈ us, u.validate = true)
    (hu : (total us).status = .unavailable) : ∀ u ∈ us, u = unavailableUsage := by
  intro u hmem
  refine eq_unavailable (h u hmem) ?_
  simp only [total] at hu
  split_ifs at hu with hall
  simpa using all_eq_true.1 hall u hmem

theorem total_append_left (h : ∀ u ∈ left, u = unavailableUsage) :
    total (left ++ right) = total right := by
  induction left with
  | nil => rfl
  | cons u left ih =>
    rw [← ih (forall_mem_cons.1 h).2, h u mem_cons_self]
    simp [total, unavailableUsage]

theorem total_append (hl : (total left).status ≠ .unavailable)
    (hr : (total right).status ≠ .unavailable) :
    total (left ++ right) = (total left).plus (total right) := by
  simp only [total, plus, map_append, sum_append, all_append, any_append] at *
  split_ifs at * <;> simp_all

/-- The total of valid usages is valid as long as it fits. -/
theorem validate_total (h : ∀ u ∈ us, u.validate = true) (hfit : (total us).tokens ≤ maxInt64) :
    (total us).validate = true := by
  have hsum : ∀ f : Usage → ℤ, (∀ u, f u ∈ u.components) → 0 ≤ (us.map f).sum := by
    intro f hf
    refine sum_nonneg fun n hn => ?_
    obtain ⟨u, hu, rfl⟩ := mem_map.1 hn
    exact (validate_iff.1 (h u hu)).1 _ (hf u)
  refine validate_iff.2 ⟨?_, hfit, ?_⟩
  · have h1 := hsum inputTokens (by simp [components])
    have h2 := hsum cacheReadTokens (by simp [components])
    have h3 := hsum cacheCreationTokens (by simp [components])
    have h4 := hsum outputTokens (by simp [components])
    have h5 := hsum reasoningTokens (by simp [components])
    simpa [components, total] using ⟨h1, h2, h3, h4, h5⟩
  · by_cases hu : (total us).status = .unavailable
    · refine .inr (.inr ⟨hu, ?_⟩)
      rw [← append_nil us, total_append_left (total_unavailable h hu)]
      rfl
    · simp only [total] at hu ⊢
      split_ifs at hu ⊢ <;> simp_all

/-- **A complete total**: something is measured, and all of that complete. -/
theorem total_complete_iff (h : ∀ u ∈ us, u.validate = true) :
    (total us).status = .complete ↔ (∃ u ∈ us, u.status ≠ .unavailable)
      ∧ ∀ u ∈ us, u.status ≠ .unavailable → u.status = .complete := by
  simp only [total]
  split_ifs with hall hany
  · simp only [all_eq_true, decide_eq_true_eq] at hall
    simp only [false_iff, not_and]
    rintro ⟨u, hu, hmeasured⟩
    exact absurd (hall u hu) hmeasured
  · obtain ⟨u, hu, hpartial⟩ := any_eq_true.1 hany
    have hp : u.status = .partially := by simpa using hpartial
    simp only [false_iff, not_and]
    intro _ hcomplete
    simpa [hp] using hcomplete u hu (by simp [hp])
  · refine ⟨fun _ => ⟨by simpa using hall, fun u hu hmeasured => ?_⟩, fun _ => rfl⟩
    obtain ⟨-, -, hs | hs | ⟨hs, -⟩⟩ := validate_iff.1 (h u hu)
    · exact hs
    · exact absurd (any_eq_true.2 ⟨u, hu, by simpa using hs⟩) hany
    · exact absurd hs hmeasured

end Usage

open Usage

/-- **Two totals add up to one**, or to one that does not fit. -/
theorem addUsage_total {left right : List Usage} (hl : ∀ u ∈ left, u.validate = true)
    (hr : ∀ u ∈ right, u.validate = true) (hlfit : (total left).tokens ≤ maxInt64)
    (hrfit : (total right).tokens ≤ maxInt64) :
    addUsage (total left) (total right) = if (total (left ++ right)).tokens ≤ maxInt64
      then some (total (left ++ right)) else none := by
  have hlv := validate_total hl hlfit
  have hrv := validate_total hr hrfit
  by_cases hlm : (total left).status = .unavailable
  · rw [total_append_left (total_unavailable hl hlm), if_pos hrfit, addUsage, if_pos hlm,
      if_pos hrv]
  · by_cases hrm : (total right).status = .unavailable
    · rw [total_perm perm_append_comm, total_append_left (total_unavailable hr hrm),
        if_pos hlfit, addUsage, if_neg hlm, if_pos hrm, if_pos hlv]
    · rw [addUsage_measured hlv hrv hlm hrm, total_append hlm hrm, tokens_plus]

/-- **Some usages, bracketed.** -/
inductive Bracketing
  | none
  | one (u : Usage)
  | both (left right : Bracketing)

namespace Bracketing

def usages : Bracketing → List Usage
  | none => []
  | one u => [u]
  | both left right => left.usages ++ right.usages

/-- What adding them up in that way returns. -/
def fold : Bracketing → Option Usage
  | none => some unavailableUsage
  | one u => some u
  | both left right => do addUsage (← left.fold) (← right.fold)

/-- **Any bracketing adds up to the total.** -/
theorem fold_eq : ∀ (t : Bracketing), (∀ u ∈ t.usages, u.validate = true) →
    t.fold = if (total t.usages).tokens ≤ maxInt64 then some (total t.usages) else .none
  | none, _ => rfl
  | one u, h => by
    have hu := h u mem_cons_self
    rw [usages, total_singleton hu, if_pos (validate_iff.1 hu).2.1]
    rfl
  | both left right, h => by
    have hl : ∀ u ∈ left.usages, u.validate = true := fun u hu => h u (mem_append_left _ hu)
    have hr : ∀ u ∈ right.usages, u.validate = true := fun u hu => h u (mem_append_right _ hu)
    have hsum : (total (left.usages ++ right.usages)).tokens
        = (total left.usages).tokens + (total right.usages).tokens := by
      simp only [tokens_total, map_append, sum_append]
    have hln := total_nonneg hl
    have hrn := total_nonneg hr
    -- A part that does not fit leaves a whole that does not.
    have hpart : (total (left.usages ++ right.usages)).tokens ≤ maxInt64 →
        (total left.usages).tokens ≤ maxInt64 ∧ (total right.usages).tokens ≤ maxInt64 := by omega
    rw [fold, fold_eq left hl, fold_eq right hr, usages]
    by_cases hlfit : (total left.usages).tokens ≤ maxInt64
    · by_cases hrfit : (total right.usages).tokens ≤ maxInt64
      · rw [if_pos hlfit, if_pos hrfit]
        exact addUsage_total hl hr hlfit hrfit
      · rw [if_pos hlfit, if_neg hrfit, if_neg fun h => hrfit (hpart h).2]
        rfl
    · rw [if_neg hlfit, if_neg fun h => hlfit (hpart h).1]
      rfl

theorem fold_perm (t t' : Bracketing) (h : ∀ u ∈ t.usages, u.validate = true)
    (hp : t.usages.Perm t'.usages) : t.fold = t'.fold := by
  rw [fold_eq t h, fold_eq t' fun u hu => h u (hp.mem_iff.2 hu), total_perm hp]

end Bracketing

/-- **Usage addition is an order-independent partial sum**: commutative
and associative with the unavailable usage as identity; every order and
bracketing of some usages returns the same or fails, and it fails exactly
when all tokens together exceed an `int64`; the sum is complete exactly
when some usage is measured and every measured one is complete. -/
theorem addUsage_sums :
    (∀ a b, a.validate = true → b.validate = true → addUsage a b = addUsage b a)
      ∧ (∀ a b c, a.validate = true → b.validate = true → c.validate = true →
        (addUsage a b).bind (addUsage · c) = (addUsage b c).bind (addUsage a ·))
      ∧ (∀ a, a.validate = true →
        addUsage unavailableUsage a = some a ∧ addUsage a unavailableUsage = some a)
      ∧ ∀ t : Bracketing, (∀ u ∈ t.usages, u.validate = true) →
        (∀ t' : Bracketing, t.usages.Perm t'.usages → t.fold = t'.fold)
        ∧ (t.fold = none ↔ maxInt64 < (t.usages.map tokens).sum)
        ∧ ∀ sum, t.fold = some sum → (sum.status = .complete ↔
          (∃ u ∈ t.usages, u.status ≠ .unavailable)
            ∧ ∀ u ∈ t.usages, u.status ≠ .unavailable → u.status = .complete) := by
  refine ⟨fun a b ha hb => ?_, fun a b c ha hb hc => ?_, fun a ha => ⟨?_, ?_⟩,
    fun t h => ⟨fun t' hp => t.fold_perm t' h hp, ?_, fun sum hsum => ?_⟩⟩
  · exact Bracketing.fold_perm (.both (.one a) (.one b)) (.both (.one b) (.one a))
      (by simp [Bracketing.usages, ha, hb]) (.swap b a [])
  · exact Bracketing.fold_perm (.both (.both (.one a) (.one b)) (.one c))
      (.both (.one a) (.both (.one b) (.one c))) (by simp [Bracketing.usages, ha, hb, hc]) (.refl _)
  · exact Bracketing.fold_perm (.both .none (.one a)) (.one a) (by simp [Bracketing.usages, ha])
      (.refl _)
  · exact Bracketing.fold_perm (.both (.one a) .none) (.one a) (by simp [Bracketing.usages, ha])
      (.refl _)
  · rw [t.fold_eq h, tokens_total]
    simp
  · rw [t.fold_eq h] at hsum
    split_ifs at hsum
    cases hsum
    exact total_complete_iff h

open Bracketing in
/-- A complete usage and a partial one, either way round. -/
theorem addUsage_sums_pair :
    let complete : Usage := { inputTokens := 2, outputTokens := 3, status := .complete }
    let partially : Usage := { outputTokens := maxInt64 - 5, status := .partially }
    (both (one complete) (one partially)).fold = (both (one partially) (one complete)).fold :=
  (addUsage_sums.2.2.2 _ (by decide)).1 _ (.swap ..)

end HardenLlm.Runtime
