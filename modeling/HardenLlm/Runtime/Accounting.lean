import Mathlib.Algebra.Order.BigOperators.Group.List
import Mathlib.Algebra.Order.Ring.Int
import Mathlib.Data.List.Induction
import HardenLlm.Runtime.Model.Accounting
/-!
# Accounting never hides uncertainty

The attempts of a call are recorded one after the other, whatever their
ledgers say and whether or not they were dispatched. An unavailable value
is an identity of the additions, so what a total covers is not to be read
off the additions: an invariant over whole sequences says which attempts
the totals stand for.
-/

namespace HardenLlm.Runtime

open List Usage

/-! ## Checked sums -/

theorem checkedSum_from {values : List ℤ} {start : ℤ} (hle : start ≤ maxInt64) :
    values.foldlM (fun result value =>
        if value < 0 then none
        else if maxInt64 - result < value then none
        else some (result + value)) start
      = if (∀ v ∈ values, 0 ≤ v) ∧ start + values.sum ≤ maxInt64 then some (start + values.sum)
        else none := by
  induction values generalizing start with
  | nil => simp [hle]
  | cons v values ih =>
    rw [foldlM_cons]
    by_cases hneg : v < 0
    · rw [if_pos hneg, if_neg]
      · rfl
      · rintro ⟨hall, -⟩
        have := hall v mem_cons_self
        omega
    rw [if_neg hneg]
    by_cases hover : maxInt64 - start < v
    · rw [if_pos hover, if_neg]
      · rfl
      · rintro ⟨hall, hsum⟩
        have hnonneg : 0 ≤ values.sum := sum_nonneg fun w hw => hall w (.tail _ hw)
        rw [sum_cons] at hsum
        omega
    · rw [if_neg hover, Option.bind_eq_bind, Option.bind_some, ih (by omega)]
      simp only [mem_cons, forall_eq_or_imp, sum_cons, Int.add_assoc]
      congr 1
      simp only [Int.not_lt.1 hneg, true_and]

/-- **A checked sum** is the sum of values that are not negative, if it
fits. -/
theorem checkedSum_eq {values : List ℤ} :
    checkedSum values = if (∀ v ∈ values, 0 ≤ v) ∧ values.sum ≤ maxInt64 then some values.sum
      else none := by
  unfold checkedSum
  rw [checkedSum_from (by decide)]
  simp only [Int.zero_add]

/-! ## Valid usages -/

namespace Usage

variable {u : Usage}

/-- The sum of the components. -/
def tokens (u : Usage) : ℤ := u.components.sum

/-- **What a valid usage is**: complete or partial components that are not
negative and whose sum fits, or nothing at all. -/
theorem validate_iff : u.validate = true ↔
    (∀ v ∈ u.components, 0 ≤ v) ∧ u.tokens ≤ maxInt64
      ∧ (u.status = .complete ∨ u.status = .partially ∨ u.status = .unavailable ∧ u.tokens = 0) := by
  have hwrap : 0 ≤ u.tokens → u.tokens ≤ maxInt64 →
      (u.componentTotalUnsafe = 0 ↔ u.tokens = 0) := by
    intro h0 hmax
    simp only [componentTotalUnsafe, tokens, components, maxInt64, sum_cons, sum_nil] at *
    rw [Int.bmod_def]
    omega
  unfold validate
  rw [checkedSum_eq]
  simp only [Bool.and_eq_true, all_eq_true, decide_eq_true_eq]
  constructor
  · rintro ⟨⟨⟨⟨hstatus, hneg⟩, hzero⟩, hinc⟩, hsum⟩
    have hfit : u.tokens ≤ maxInt64 := by
      by_contra hover
      rw [if_neg fun h => hover h.2] at hsum
      cases hsum
    refine ⟨hneg, hfit, ?_⟩
    have hw := hwrap (sum_nonneg hneg) hfit
    cases hs : u.status <;> simp_all
  · rintro ⟨hneg, hfit, hstatus⟩
    have hw := hwrap (sum_nonneg hneg) hfit
    rw [if_pos ⟨hneg, hfit⟩]
    rcases hstatus with hs | hs | ⟨hs, hz⟩ <;> simp_all

/-- The componentwise sum, partial if either is. -/
def plus (left right : Usage) : Usage :=
  { inputTokens := left.inputTokens + right.inputTokens
    cacheReadTokens := left.cacheReadTokens + right.cacheReadTokens
    cacheCreationTokens := left.cacheCreationTokens + right.cacheCreationTokens
    outputTokens := left.outputTokens + right.outputTokens
    reasoningTokens := left.reasoningTokens + right.reasoningTokens
    status := if left.status = .partially || right.status = .partially then .partially
      else .complete }

theorem tokens_nonneg {u : Usage} (h : u.validate = true) : 0 ≤ u.tokens :=
  sum_nonneg (validate_iff.1 h).1

theorem tokens_plus (left right : Usage) :
    (left.plus right).tokens = left.tokens + right.tokens := by
  simp only [tokens, components, plus, sum_cons, sum_nil]
  omega

theorem plus_measured (left right : Usage) : (left.plus right).status ≠ .unavailable := by
  unfold plus
  dsimp only
  split <;> simp

theorem validate_plus {left right : Usage} (hl : left.validate = true) (hr : right.validate = true)
    (hfit : left.tokens + right.tokens ≤ maxInt64) : (left.plus right).validate = true := by
  have hln := (validate_iff.1 hl).1
  have hrn := (validate_iff.1 hr).1
  rw [validate_iff, tokens_plus]
  refine ⟨?_, hfit, ?_⟩
  · simp only [components, mem_cons, not_mem_nil, or_false, forall_eq_or_imp,
      forall_eq, plus] at hln hrn ⊢
    omega
  · unfold plus
    dsimp only
    split
    · exact .inr (.inl rfl)
    · exact .inl rfl

end Usage

theorem checkedSum_pair {a b : ℤ} (ha : 0 ≤ a) (hb : 0 ≤ b) (hfit : a + b ≤ maxInt64) :
    checkedSum [a, b] = some (a + b) := by
  rw [checkedSum_eq, if_pos] <;> simp [ha, hb, hfit]

theorem checkedSum_pair_eq_some {a b c : ℤ} (h : checkedSum [a, b] = some c) : c = a + b := by
  rw [checkedSum_eq] at h
  split at h
  · cases h
    simp
  · cases h

/-- **Two measured usages add up** as long as their total fits. -/
theorem addUsage_measured {left right : Usage} (hl : left.validate = true)
    (hr : right.validate = true) (hlm : left.status ≠ .unavailable)
    (hrm : right.status ≠ .unavailable) :
    addUsage left right
      = if left.tokens + right.tokens ≤ maxInt64 then some (left.plus right) else none := by
  unfold addUsage
  rw [if_neg hlm, if_neg hrm, if_neg (by simp [hl, hr])]
  by_cases hfit : left.tokens + right.tokens ≤ maxInt64
  · rw [if_pos hfit]
    have hvalid := Usage.validate_plus hl hr hfit
    obtain ⟨hln, -⟩ := Usage.validate_iff.1 hl
    obtain ⟨hrn, -⟩ := Usage.validate_iff.1 hr
    simp only [Usage.tokens, components, mem_cons, not_mem_nil, or_false,
      forall_eq_or_imp, forall_eq, sum_cons, sum_nil] at hln hrn hfit
    obtain ⟨h1, h2, h3, h4, h5⟩ := hln
    obtain ⟨k1, k2, k3, k4, k5⟩ := hrn
    rw [checkedSum_pair h1 k1 (by omega), checkedSum_pair h2 k2 (by omega),
      checkedSum_pair h3 k3 (by omega), checkedSum_pair h4 k4 (by omega),
      checkedSum_pair h5 k5 (by omega)]
    simp only [Option.bind_eq_bind, Option.bind_some]
    exact if_pos hvalid
  · rw [if_neg hfit]
    -- What it would return is valid, so its total would fit.
    rw [Option.eq_none_iff_forall_ne_some]
    intro u hu
    simp only [Option.bind_eq_bind, Option.bind_eq_some_iff] at hu
    obtain ⟨a, ha, b, hb, c, hc, d, hd, e, he, hu⟩ := hu
    obtain rfl := checkedSum_pair_eq_some ha
    obtain rfl := checkedSum_pair_eq_some hb
    obtain rfl := checkedSum_pair_eq_some hc
    obtain rfl := checkedSum_pair_eq_some hd
    obtain rfl := checkedSum_pair_eq_some he
    by_cases hvalid : (left.plus right).validate = true
    · refine hfit ?_
      rw [← Usage.tokens_plus]
      exact (Usage.validate_iff.1 hvalid).2.1
    · cases (if_neg hvalid).symm.trans hu

/-! ## Valid costs -/

namespace Cost

variable {c : Cost ℤ}

/-- **What a valid cost is**: the status says which observations there
are. -/
theorem validate_iff : c.validate = true ↔
    0 ≤ c.knownSubtotalUSD ∧ 0 ≤ c.knownObservations ∧ 0 ≤ c.unknownObservations
      ∧ (c.status = .exact ∧ c.knownObservations ≠ 0 ∧ c.unknownObservations = 0
        ∨ c.status = .partially ∧ c.knownObservations ≠ 0 ∧ c.unknownObservations ≠ 0
        ∨ c.status = .unknown ∧ c.knownObservations = 0 ∧ c.unknownObservations ≠ 0
          ∧ c.knownSubtotalUSD = 0
        ∨ c.status = .unavailable ∧ c.knownObservations = 0 ∧ c.unknownObservations = 0
          ∧ c.knownSubtotalUSD = 0) := by
  unfold validate
  cases hs : c.status <;>
    simp [Amounts.valid, Amounts.isZero, and_assoc]

/-- The sum of two measured costs. -/
def plus (left right : Cost ℤ) : Cost ℤ :=
  let known := left.knownObservations + right.knownObservations
  let unknown := left.unknownObservations + right.unknownObservations
  { knownSubtotalUSD := left.knownSubtotalUSD + right.knownSubtotalUSD
    status := if 0 < known ∧ 0 < unknown then .partially
      else if 0 < known then .exact else .unknown
    source := mergeSource left.source right.source
    knownObservations := known
    unknownObservations := unknown }

theorem validate_plus {left right : Cost ℤ} (hl : left.validate = true) (hr : right.validate = true)
    (hlu : left.status ≠ .unavailable) (hru : right.status ≠ .unavailable) :
    (left.plus right).validate = true := by
  obtain ⟨hl0, hl1, hl2, hls⟩ := validate_iff.1 hl
  obtain ⟨hr0, hr1, hr2, hrs⟩ := validate_iff.1 hr
  rw [validate_iff]
  unfold plus
  dsimp only
  refine ⟨by omega, by omega, by omega, ?_⟩
  split
  · rename_i h
    exact .inr (.inl ⟨rfl, by omega, by omega⟩)
  · split
    · rename_i h hk
      exact .inl ⟨rfl, by omega, by omega⟩
    · rename_i h hk
      -- Nothing is known on either side, so both subtotals are zero.
      refine .inr (.inr (.inl ⟨rfl, by omega, ?_, ?_⟩)) <;> simp_all <;> omega

end Cost

/-- **Two valid costs add up**, to a valid one that covers and misses what
either of them does. -/
theorem addCost_valid {left right : Cost ℤ} (hl : left.validate = true)
    (hr : right.validate = true) :
    ∃ c, addCost left right = some c ∧ c.validate = true
      ∧ c.knownSubtotalUSD = left.knownSubtotalUSD + right.knownSubtotalUSD
      ∧ c.unknownObservations = left.unknownObservations + right.unknownObservations := by
  have hl' := Cost.validate_iff.1 hl
  have hr' := Cost.validate_iff.1 hr
  unfold addCost
  by_cases hlu : left.status = .unavailable
  · rw [if_pos hlu, if_pos hr]
    refine ⟨right, rfl, hr, ?_, ?_⟩ <;> simp_all
  rw [if_neg hlu]
  by_cases hru : right.status = .unavailable
  · rw [if_pos hru, if_pos hl]
    refine ⟨left, rfl, hl, ?_, ?_⟩ <;> simp_all
  rw [if_neg hru, if_neg (by simp [hl, hr])]
  have hvalid := Cost.validate_plus hl hr hlu hru
  exact ⟨left.plus right, if_pos hvalid, hvalid, rfl, rfl⟩

/-! ## Sequences of attempts -/

/-- What one attempt is recorded with. -/
structure Observation where
  dispatched : Bool
  ledger : Ledger ℤ

namespace Observation

/-- It carries a valid measured usage. -/
def usageMeasured (o : Observation) : Bool :=
  o.ledger.usage.validate && o.ledger.usage.status ≠ .unavailable

/-- It carries a valid measured cost. -/
def costMeasured (o : Observation) : Bool :=
  o.ledger.cost.validate && o.ledger.cost.status ≠ .unavailable

/-- **An observed attempt**: dispatched, or with something measured. -/
def observed (o : Observation) : Bool := o.dispatched || o.usageMeasured || o.costMeasured

theorem usageMeasured_iff {o : Observation} : o.usageMeasured = true ↔
    o.ledger.usage.validate = true ∧ o.ledger.usage.status ≠ .unavailable := by
  simp [usageMeasured]

theorem costMeasured_iff {o : Observation} : o.costMeasured = true ↔
    o.ledger.cost.validate = true ∧ o.ledger.cost.status ≠ .unavailable := by
  simp [costMeasured]

end Observation

/-- The accumulator after these attempts. -/
def observeAll (os : List Observation) : ProviderAccumulator ℤ :=
  os.foldl (fun p o => (p.observe o.dispatched o.ledger).1) newProviderAccumulator

theorem observeAll_append (os : List Observation) (o : Observation) :
    observeAll (os ++ [o]) = ((observeAll os).observe o.dispatched o.ledger).1 := by
  unfold observeAll
  rw [foldl_append]
  rfl

/-- The valid measured usages, in order. -/
def measuredUsages (os : List Observation) : List Usage :=
  (os.filter (·.usageMeasured)).map (·.ledger.usage)

/-- The subtotals of the valid measured costs, in order. -/
def measuredSubtotals (os : List Observation) : List ℤ :=
  (os.filter (·.costMeasured)).map (·.ledger.cost.knownSubtotalUSD)

/-! ### One attempt -/

section Step

variable {p : ProviderAccumulator ℤ} {o : Observation}

/-- An attempt without a measured usage leaves the sums and opens a gap if
it was observed. -/
theorem observe_unmeasured (h : o.usageMeasured = false) :
    (p.observe o.dispatched o.ledger).1.ledger.usage = p.ledger.usage
      ∧ (p.observe o.dispatched o.ledger).1.missingUsage = (p.missingUsage || o.observed) := by
  unfold ProviderAccumulator.observe
  dsimp only
  have hc : (!o.ledger.usage.validate || decide (o.ledger.usage.status = .unavailable)) = true := by
    unfold Observation.usageMeasured at h
    simp only [Bool.and_eq_false_iff] at h
    rcases h with h | h
    · simp [h]
    · simp only [ne_eq, decide_not, Bool.not_eq_false'] at h
      simp [h]
  rw [if_pos hc, if_pos hc]
  exact ⟨rfl, rfl⟩

/-- A measured usage is added, or opens a gap if the sum does not fit. -/
theorem observe_measured (h : o.usageMeasured = true) :
    (p.observe o.dispatched o.ledger).1.ledger.usage
        = (addUsage p.ledger.usage o.ledger.usage).getD p.ledger.usage
      ∧ (p.observe o.dispatched o.ledger).1.missingUsage
        = (p.missingUsage || (addUsage p.ledger.usage o.ledger.usage).isNone) := by
  obtain ⟨hv, hs⟩ := Observation.usageMeasured_iff.1 h
  unfold ProviderAccumulator.observe
  dsimp only
  have hc : ¬ (!o.ledger.usage.validate || decide (o.ledger.usage.status = .unavailable)) = true := by
    simp [hv, hs]
  rw [if_neg hc, if_neg hc]
  exact ⟨rfl, rfl⟩

/-- The cost with one more unknown observation. -/
theorem addUnknownCost_valid {c : Cost ℤ} (h : c.validate = true) :
    (ProviderAccumulator.addUnknownCost c).validate = true
      ∧ (ProviderAccumulator.addUnknownCost c).knownSubtotalUSD = c.knownSubtotalUSD
      ∧ (ProviderAccumulator.addUnknownCost c).unknownObservations = c.unknownObservations + 1 := by
  have hunknown : (unknownCost "unknown" : Cost ℤ).validate = true := by decide
  obtain ⟨c', hadd, hvalid, hsub, hmiss⟩ := addCost_valid h hunknown
  unfold ProviderAccumulator.addUnknownCost
  rw [hadd]
  refine ⟨hvalid, ?_, hmiss⟩
  rw [Option.getD_some, hsub]
  exact Int.add_zero _

/-- **The cost of one attempt**: what is measured adds up, and an observed
attempt without a measured cost counts as unknown. -/
theorem observe_cost (hp : p.ledger.cost.validate = true) :
    (p.observe o.dispatched o.ledger).1.ledger.cost.validate = true
      ∧ (p.observe o.dispatched o.ledger).1.ledger.cost.knownSubtotalUSD
        = p.ledger.cost.knownSubtotalUSD
          + (if o.costMeasured then o.ledger.cost.knownSubtotalUSD else 0)
      ∧ (p.observe o.dispatched o.ledger).1.ledger.cost.unknownObservations
        = p.ledger.cost.unknownObservations
          + (if o.costMeasured then o.ledger.cost.unknownObservations
            else if o.observed then 1 else 0) := by
  unfold ProviderAccumulator.observe
  dsimp only
  by_cases h : o.costMeasured = true
  · obtain ⟨hv, hs⟩ := Observation.costMeasured_iff.1 h
    obtain ⟨c, hadd, hvalid, hsub, hmiss⟩ := addCost_valid hp hv
    rw [if_neg (by simp [hv, hs]), hadd, Option.getD_some, if_pos h, if_pos h]
    exact ⟨hvalid, hsub, hmiss⟩
  · have hc : (!o.ledger.cost.validate || decide (o.ledger.cost.status = .unavailable)) = true := by
      rw [Observation.costMeasured_iff, not_and, ne_eq, not_not] at h
      cases hv : o.ledger.cost.validate
      · rfl
      · simp [h hv]
    rw [if_pos hc, Option.getD_some, if_neg h, if_neg h]
    change (if o.observed = true then _ else _ : Cost ℤ).validate = true ∧
      (if o.observed = true then _ else _ : Cost ℤ).knownSubtotalUSD = _ ∧
      (if o.observed = true then _ else _ : Cost ℤ).unknownObservations = _
    by_cases ho : o.observed = true
    · obtain ⟨hvalid, hsub, hmiss⟩ := addUnknownCost_valid hp
      simp only [if_pos ho]
      exact ⟨hvalid, by omega, hmiss⟩
    · simp only [if_neg ho]
      exact ⟨hp, by omega, by omega⟩

end Step

/-! ### What the totals stand for -/

/-- **The exact sums of these usages**, component by component. -/
structure Usage.Sums (us : List Usage) (u : Usage) : Prop where
  input : u.inputTokens = (us.map (·.inputTokens)).sum
  cacheRead : u.cacheReadTokens = (us.map (·.cacheReadTokens)).sum
  cacheCreation : u.cacheCreationTokens = (us.map (·.cacheCreationTokens)).sum
  output : u.outputTokens = (us.map (·.outputTokens)).sum
  reasoning : u.reasoningTokens = (us.map (·.reasoningTokens)).sum

namespace Usage.Sums

variable {us : List Usage} {u v : Usage}

theorem tokens (h : Sums us u) : u.tokens = (us.map Usage.tokens).sum := by
  have hsplit : (us.map Usage.tokens).sum = (us.map (·.inputTokens)).sum
      + (us.map (·.cacheReadTokens)).sum + (us.map (·.cacheCreationTokens)).sum
      + (us.map (·.outputTokens)).sum + (us.map (·.reasoningTokens)).sum := by
    clear h
    induction us with
    | nil => rfl
    | cons w us ih =>
      simp only [map_cons, sum_cons, ih, Usage.tokens, components, sum_nil]
      omega
  rw [hsplit, ← h.input, ← h.cacheRead, ← h.cacheCreation, ← h.output, ← h.reasoning]
  simp only [Usage.tokens, components, sum_cons, sum_nil]
  omega

theorem single (v : Usage) : Sums [v] v := by
  constructor <;> simp

theorem append (h : Sums us u) (v : Usage) : Sums (us ++ [v]) (u.plus v) := by
  obtain ⟨h1, h2, h3, h4, h5⟩ := h
  constructor <;> simp [plus, *]

end Usage.Sums

/-- **What the accumulator knows** of the attempts so far. -/
structure Covers (os : List Observation) (p : ProviderAccumulator ℤ) : Prop where
  usageValid : p.ledger.usage.validate = true
  costValid : p.ledger.cost.validate = true
  unavailable : p.ledger.usage.status = .unavailable ↔ measuredUsages os = []
  covered : p.missingUsage = false → ∀ o ∈ os, o.observed = true → o.usageMeasured = true
  complete : p.ledger.usage.status = .complete → p.missingUsage = false →
    ∀ o ∈ os, o.usageMeasured = true → o.ledger.usage.status = .complete
  sums : ((measuredUsages os).map Usage.tokens).sum ≤ maxInt64 →
    Usage.Sums (measuredUsages os) p.ledger.usage
  known : p.ledger.cost.unknownObservations = 0 → ∀ o ∈ os, o.observed = true →
    o.costMeasured = true ∧ o.ledger.cost.status = .exact
  subtotal : p.ledger.cost.knownSubtotalUSD = (measuredSubtotals os).sum

theorem covers_nil : Covers [] newProviderAccumulator where
  usageValid := by decide
  costValid := by decide
  unavailable := by decide
  covered := by simp
  complete := by simp
  sums := fun _ => by constructor <;> rfl
  known := by simp
  subtotal := rfl

section Append

variable {os : List Observation} {o : Observation}

theorem measuredUsages_append_of (h : o.usageMeasured = true) :
    measuredUsages (os ++ [o]) = measuredUsages os ++ [o.ledger.usage] := by
  simp [measuredUsages, h]

theorem measuredUsages_append_of_not (h : o.usageMeasured = false) :
    measuredUsages (os ++ [o]) = measuredUsages os := by
  simp [measuredUsages, h]

theorem sum_measuredSubtotals_append : (measuredSubtotals (os ++ [o])).sum
    = (measuredSubtotals os).sum + (if o.costMeasured then o.ledger.cost.knownSubtotalUSD else 0) := by
  unfold measuredSubtotals
  cases h : o.costMeasured <;> simp [h]

/-- An exact cost is one with nothing unknown. -/
theorem exact_of_known {c : Cost ℤ} (hv : c.validate = true) (hs : c.status ≠ .unavailable)
    (hmiss : c.unknownObservations = 0) : c.status = .exact := by
  obtain ⟨-, -, -, h⟩ := Cost.validate_iff.1 hv
  rcases h with h | h | h | h
  · exact h.1
  · exact absurd hmiss h.2.2
  · exact absurd hmiss h.2.2.1
  · exact absurd h.1 hs

variable {p : ProviderAccumulator ℤ}

/-- **One attempt more**: the cost. -/
theorem Covers.known_append (h : Covers os p)
    (hmiss : (p.observe o.dispatched o.ledger).1.ledger.cost.unknownObservations = 0) :
    ∀ x ∈ os ++ [o], x.observed = true → x.costMeasured = true ∧ x.ledger.cost.status = .exact := by
  obtain ⟨-, -, hcount⟩ := observe_cost (o := o) h.costValid
  have hp := (Cost.validate_iff.1 h.costValid).2.2.1
  rw [hcount] at hmiss
  have ho : 0 ≤ (if o.costMeasured then o.ledger.cost.unknownObservations
      else if o.observed then 1 else 0) := by
    split
    · rename_i hm
      exact (Cost.validate_iff.1 (Observation.costMeasured_iff.1 hm).1).2.2.1
    · split <;> decide
  intro x hx hobs
  rcases mem_append.1 hx with hx | hx
  · exact h.known (by omega) x hx hobs
  · obtain rfl := mem_singleton.1 hx
    have hzero : (if x.costMeasured then x.ledger.cost.unknownObservations
        else if x.observed then 1 else 0) = 0 := by omega
    by_cases hm : x.costMeasured = true
    · rw [if_pos hm] at hzero
      obtain ⟨hv, hs⟩ := Observation.costMeasured_iff.1 hm
      exact ⟨hm, exact_of_known hv hs hzero⟩
    · rw [if_neg hm, if_pos hobs] at hzero
      cases hzero

/-- A measured usage after these attempts, in the three ways it can go. -/
theorem Covers.measured_cases (h : Covers os p) (hm : o.usageMeasured = true) :
    (p.ledger.usage.status = .unavailable ∧
        addUsage p.ledger.usage o.ledger.usage = some o.ledger.usage)
      ∨ (p.ledger.usage.status ≠ .unavailable
        ∧ p.ledger.usage.tokens + o.ledger.usage.tokens ≤ maxInt64
        ∧ addUsage p.ledger.usage o.ledger.usage = some (p.ledger.usage.plus o.ledger.usage))
      ∨ (p.ledger.usage.status ≠ .unavailable
        ∧ maxInt64 < p.ledger.usage.tokens + o.ledger.usage.tokens
        ∧ addUsage p.ledger.usage o.ledger.usage = none) := by
  obtain ⟨hv, hs⟩ := Observation.usageMeasured_iff.1 hm
  by_cases hp : p.ledger.usage.status = .unavailable
  · refine .inl ⟨hp, ?_⟩
    unfold addUsage
    rw [if_pos hp, if_pos hv]
  · have hadd := addUsage_measured h.usageValid hv hp hs
    by_cases hfit : p.ledger.usage.tokens + o.ledger.usage.tokens ≤ maxInt64
    · rw [if_pos hfit] at hadd
      exact .inr (.inl ⟨hp, hfit, hadd⟩)
    · rw [if_neg hfit] at hadd
      exact .inr (.inr ⟨hp, by omega, hadd⟩)

theorem measuredUsages_eq_nil : measuredUsages os = [] ↔ ∀ x ∈ os, x.usageMeasured = false := by
  simp [measuredUsages, filter_eq_nil_iff]

/-- A sum is complete only if both its parts are. -/
theorem Usage.complete_of_plus {u v : Usage} (hu : u.validate = true) (hv : v.validate = true)
    (hum : u.status ≠ .unavailable) (hvm : v.status ≠ .unavailable)
    (h : (u.plus v).status = .complete) : u.status = .complete ∧ v.status = .complete := by
  obtain ⟨-, -, hus⟩ := Usage.validate_iff.1 hu
  obtain ⟨-, -, hvs⟩ := Usage.validate_iff.1 hv
  unfold Usage.plus at h
  dsimp only at h
  split at h
  · cases h
  · rename_i hpart
    simp only [Bool.or_eq_true, decide_eq_true_eq, not_or] at hpart
    constructor
    · rcases hus with h | h | h
      · exact h
      · exact absurd h hpart.1
      · exact absurd h.1 hum
    · rcases hvs with h | h | h
      · exact h
      · exact absurd h hpart.2
      · exact absurd h.1 hvm

/-- **One attempt more without a measured usage.** -/
theorem Covers.append_unmeasured (h : Covers os p) (hm : o.usageMeasured = false) :
    Covers (os ++ [o]) (p.observe o.dispatched o.ledger).1 := by
  obtain ⟨husage, hmissing⟩ := observe_unmeasured (p := p) hm
  obtain ⟨hcost, hsub, -⟩ := observe_cost (o := o) h.costValid
  have hgap : (p.observe o.dispatched o.ledger).1.missingUsage = false →
      p.missingUsage = false ∧ o.observed = false := by
    intro hfalse
    rw [hmissing, Bool.or_eq_false_iff] at hfalse
    exact hfalse
  refine ⟨?_, hcost, ?_, ?_, ?_, ?_, h.known_append, ?_⟩
  · rw [husage]
    exact h.usageValid
  · rw [husage, measuredUsages_append_of_not hm]
    exact h.unavailable
  · intro hfalse x hx hobs
    obtain ⟨hp, ho⟩ := hgap hfalse
    rcases mem_append.1 hx with hx | hx
    · exact h.covered hp x hx hobs
    · obtain rfl := mem_singleton.1 hx
      rw [ho] at hobs
      cases hobs
  · intro hs hfalse x hx hxm
    rw [husage] at hs
    rcases mem_append.1 hx with hx | hx
    · exact h.complete hs (hgap hfalse).1 x hx hxm
    · obtain rfl := mem_singleton.1 hx
      rw [hm] at hxm
      cases hxm
  · rw [measuredUsages_append_of_not hm, husage]
    exact h.sums
  · rw [hsub, h.subtotal, sum_measuredSubtotals_append]

/-- **One attempt more with a measured usage.** -/
theorem Covers.append_measured (h : Covers os p) (hm : o.usageMeasured = true) :
    Covers (os ++ [o]) (p.observe o.dispatched o.ledger).1 := by
  obtain ⟨hv, hs⟩ := Observation.usageMeasured_iff.1 hm
  obtain ⟨husage, hmissing⟩ := observe_measured (p := p) hm
  obtain ⟨hcost, hsub, -⟩ := observe_cost (o := o) h.costValid
  have hsubtotal : (p.observe o.dispatched o.ledger).1.ledger.cost.knownSubtotalUSD
      = (measuredSubtotals (os ++ [o])).sum := by
    rw [hsub, h.subtotal, sum_measuredSubtotals_append]
  have hne : measuredUsages (os ++ [o]) ≠ [] := by
    rw [measuredUsages_append_of hm]
    simp
  have htokens : ((measuredUsages (os ++ [o])).map Usage.tokens).sum
      = ((measuredUsages os).map Usage.tokens).sum + o.ledger.usage.tokens := by
    rw [measuredUsages_append_of hm]
    simp
  have hcovered : (p.observe o.dispatched o.ledger).1.missingUsage = false →
      ∀ x ∈ os ++ [o], x.observed = true → x.usageMeasured = true := by
    intro hfalse x hx hobs
    rw [hmissing, Bool.or_eq_false_iff] at hfalse
    rcases mem_append.1 hx with hx | hx
    · exact h.covered hfalse.1 x hx hobs
    · rw [mem_singleton.1 hx]
      exact hm
  have hnonneg := Usage.tokens_nonneg hv
  rcases h.measured_cases hm with ⟨hp, hadd⟩ | ⟨hp, hfit, hadd⟩ | ⟨hp, hover, hadd⟩
  · -- The first measured usage becomes the sum.
    have hnil := h.unavailable.1 hp
    rw [hadd, Option.getD_some] at husage
    refine ⟨?_, hcost, ?_, hcovered, ?_, ?_, h.known_append, hsubtotal⟩
    · rw [husage]
      exact hv
    · rw [husage]
      exact iff_of_false hs hne
    · intro hc _ x hx hxm
      rw [husage] at hc
      rcases mem_append.1 hx with hx | hx
      · rw [measuredUsages_eq_nil.1 hnil x hx] at hxm
        cases hxm
      · rw [mem_singleton.1 hx]
        exact hc
    · intro _
      rw [husage, measuredUsages_append_of hm, hnil]
      exact Usage.Sums.single _
  · rw [hadd, Option.getD_some] at husage
    refine ⟨?_, hcost, ?_, hcovered, ?_, ?_, h.known_append, hsubtotal⟩
    · rw [husage]
      exact Usage.validate_plus h.usageValid hv hfit
    · rw [husage]
      exact iff_of_false (Usage.plus_measured _ _) hne
    · intro hc hfalse x hx hxm
      rw [husage] at hc
      rw [hmissing, Bool.or_eq_false_iff] at hfalse
      obtain ⟨hpc, hoc⟩ := Usage.complete_of_plus h.usageValid hv hp hs hc
      rcases mem_append.1 hx with hx | hx
      · exact h.complete hpc hfalse.1 x hx hxm
      · rw [mem_singleton.1 hx]
        exact hoc
    · intro hall
      rw [htokens] at hall
      rw [husage, measuredUsages_append_of hm]
      exact (h.sums (by omega)).append _
  · -- The sum does not fit: it stays, with a gap.
    rw [hadd, Option.getD_none] at husage
    rw [hadd, Option.isNone_none, Bool.or_true] at hmissing
    refine ⟨?_, hcost, ?_, hcovered, ?_, ?_, h.known_append, hsubtotal⟩
    · rw [husage]
      exact h.usageValid
    · rw [husage]
      exact iff_of_false hp hne
    · intro _ hfalse
      rw [hmissing] at hfalse
      cases hfalse
    · intro hall
      rw [htokens] at hall
      have hsum := (h.sums (by omega)).tokens
      omega

end Append

/-- **The accumulator covers every sequence of attempts.** -/
theorem covers_observeAll (os : List Observation) : Covers os (observeAll os) := by
  induction os using List.reverseRecOn with
  | nil => exact covers_nil
  | append_singleton os o ih =>
    rw [observeAll_append]
    cases hm : o.usageMeasured
    · exact ih.append_unmeasured hm
    · exact ih.append_measured hm

/-- **What a ledger may say of these attempts.** -/
structure Ledger.Honest (os : List Observation) (l : Ledger ℤ) : Prop where
  unavailable : l.usage.status = .unavailable ↔ ∀ o ∈ os, o.usageMeasured = false
  complete : l.usage.status = .complete → ∀ o ∈ os, o.observed = true →
    o.ledger.usage.validate = true ∧ o.ledger.usage.status = .complete
  sums : ((measuredUsages os).map Usage.tokens).sum ≤ maxInt64 →
    Usage.Sums (measuredUsages os) l.usage
  exact : l.cost.status = .exact → ∀ o ∈ os, o.observed = true →
    o.ledger.cost.validate = true ∧ o.ledger.cost.status = .exact
  subtotal : l.cost.knownSubtotalUSD = (measuredSubtotals os).sum
  valid : l.usage.validate = true ∧ l.cost.validate = true

/-- The returned ledger differs from the accumulated one in the status of a
measured usage only. -/
theorem ProviderAccumulator.total_cases (p : ProviderAccumulator ℤ) :
    p.total = p.ledger ∧ (p.missingUsage = false ∨ p.ledger.usage.status = .unavailable)
      ∨ p.ledger.usage.status ≠ .unavailable
        ∧ p.total = { p.ledger with usage := { p.ledger.usage with status := .partially } } := by
  unfold total
  split
  · rename_i h
    simp only [ne_eq, decide_not, Bool.and_eq_true, Bool.not_eq_eq_eq_not, Bool.not_true,
      decide_eq_false_iff_not] at h
    exact .inr ⟨h.2, rfl⟩
  · rename_i h
    simp only [ne_eq, decide_not, Bool.and_eq_true, Bool.not_eq_eq_eq_not, Bool.not_true,
      decide_eq_false_iff_not, not_and, not_not] at h
    refine .inl ⟨rfl, ?_⟩
    cases hp : p.missingUsage
    · exact .inl rfl
    · exact .inr (h hp)

/-- **Provider accounting never hides uncertainty.** -/
theorem total_honest (os : List Observation) : (observeAll os).total.Honest os := by
  have h := covers_observeAll os
  have hexact : (observeAll os).ledger.cost.status = .exact → ∀ o ∈ os, o.observed = true →
      o.ledger.cost.validate = true ∧ o.ledger.cost.status = .exact := by
    intro hs o ho hobs
    obtain ⟨-, -, -, hc⟩ := Cost.validate_iff.1 h.costValid
    have hmiss : (observeAll os).ledger.cost.unknownObservations = 0 := by
      rcases hc with hc | hc | hc | hc
      · exact hc.2.2
      all_goals
        rw [hc.1] at hs
        cases hs
    obtain ⟨hm, he⟩ := h.known hmiss o ho hobs
    exact ⟨(Observation.costMeasured_iff.1 hm).1, he⟩
  rcases (observeAll os).total_cases with ⟨heq, hgap⟩ | ⟨hs, heq⟩
  · rw [heq]
    refine ⟨?_, ?_, h.sums, hexact, h.subtotal, h.usageValid, h.costValid⟩
    · rw [h.unavailable, measuredUsages_eq_nil]
    · intro hc o ho hobs
      have hmiss : (observeAll os).missingUsage = false := by
        rcases hgap with hgap | hgap
        · exact hgap
        · rw [hgap] at hc
          cases hc
      have hm := h.covered hmiss o ho hobs
      exact ⟨(Observation.usageMeasured_iff.1 hm).1, h.complete hc hmiss o ho hm⟩
  · rw [heq]
    refine ⟨?_, ?_, ?_, hexact, h.subtotal, ?_, h.costValid⟩
    · rw [← measuredUsages_eq_nil, ← h.unavailable]
      exact iff_of_false (by simp) hs
    · intro hc
      cases hc
    · intro hfit
      obtain ⟨h1, h2, h3, h4, h5⟩ := h.sums hfit
      exact ⟨h1, h2, h3, h4, h5⟩
    · obtain ⟨hneg, hfit, -⟩ := Usage.validate_iff.1 h.usageValid
      exact Usage.validate_iff.2 ⟨hneg, hfit, .inr (.inl rfl)⟩

end HardenLlm.Runtime
