import HardenLlm.Batch.Model.Types
/-!
# Accounting

Token usage, cost and the ledgers of one call, from `accounting.go`. The
dollar amounts are floats in the source; here they are an arbitrary type
with the operations the accounting makes on them, `roundCost` included.
Why a value was not valid is not kept: no caller passes it on.
-/

namespace HardenLlm.Runtime

/-- `strings.TrimSpace`. -/
def trimSpace (s : String) : String :=
  let rest := s.toList.dropWhile Batch.isSpace
  String.ofList (rest.reverse.dropWhile Batch.isSpace).reverse

/-- **Dollar amounts.** -/
class Amounts (A : Type) where
  zero : A
  isZero : A → Bool
  /-- A number, finite and not negative. -/
  valid : A → Bool
  round : A → A
  /-- The rounded sum. -/
  add : A → A → A
  /-- The subtotal with `count` more tokens at this rate, rounded. -/
  charge : A → ℤ → A → A

/-- Exact multiples of the rounding unit. -/
instance : Amounts ℤ where
  zero := 0
  isZero n := n = 0
  valid n := 0 ≤ n
  round n := n
  add n m := n + m
  charge n count rate := n + count * rate

/-! ## Usage -/

/-- A usage status; the empty one is `unset`. -/
inductive UsageStatus
  | unset
  | complete
  | partially
  | unavailable
  | inconsistent
  | unknown (text : String)
  deriving DecidableEq, Repr

/-- **The five components of a usage.** -/
structure Usage where
  inputTokens : ℤ := 0
  cacheReadTokens : ℤ := 0
  cacheCreationTokens : ℤ := 0
  outputTokens : ℤ := 0
  reasoningTokens : ℤ := 0
  status : UsageStatus := .unset
  deriving DecidableEq, Repr

/-- The sum, if no value is negative and it does not overflow. -/
def checkedSum (values : List ℤ) : Option ℤ :=
  values.foldlM (fun result value =>
    if value < 0 then none
    else if maxInt64 - result < value then none
    else some (result + value)) 0

namespace Usage

variable (u : Usage)

def components : List ℤ :=
  [u.inputTokens, u.cacheReadTokens, u.cacheCreationTokens, u.outputTokens, u.reasoningTokens]

/-- The sum of the components as `int64`, which may wrap around. -/
def componentTotalUnsafe : ℤ :=
  (u.inputTokens + u.cacheReadTokens + u.cacheCreationTokens + u.outputTokens
    + u.reasoningTokens).bmod 18446744073709551616

def promptTokens : ℤ :=
  (checkedSum [u.inputTokens, u.cacheReadTokens, u.cacheCreationTokens]).getD 0

def completionTokens : ℤ := (checkedSum [u.outputTokens, u.reasoningTokens]).getD 0

/-- The usage is valid. -/
def validate : Bool :=
  (u.status = .complete || u.status = .partially || u.status = .unavailable
      || u.status = .inconsistent)
    && u.components.all (0 ≤ ·)
    && !(u.status = .unavailable && u.componentTotalUnsafe ≠ 0)
    && u.status ≠ .inconsistent
    && (checkedSum u.components).isSome

end Usage

def unavailableUsage : Usage := { status := .unavailable }

def addUsage (left right : Usage) : Option Usage :=
  if left.status = .unavailable then if right.validate then some right else none
  else if right.status = .unavailable then if left.validate then some left else none
  else if !left.validate || !right.validate then none
  else do
    let input ← checkedSum [left.inputTokens, right.inputTokens]
    let cacheRead ← checkedSum [left.cacheReadTokens, right.cacheReadTokens]
    let cacheCreation ← checkedSum [left.cacheCreationTokens, right.cacheCreationTokens]
    let output ← checkedSum [left.outputTokens, right.outputTokens]
    let reasoning ← checkedSum [left.reasoningTokens, right.reasoningTokens]
    let result : Usage :=
      { inputTokens := input, cacheReadTokens := cacheRead, cacheCreationTokens := cacheCreation
        outputTokens := output, reasoningTokens := reasoning
        status := if left.status = .partially || right.status = .partially then .partially
          else .complete }
    if result.validate then some result else none

/-! ## Cost -/

/-- A cost status; the empty one is `unset`. -/
inductive CostStatus
  | unset
  | exact
  | partially
  | unknown
  | unavailable
  | other (text : String)
  deriving DecidableEq, Repr

variable {A : Type}

/-- **A cost**: the measured subtotal, and how many observations it
covers and misses. -/
structure Cost (A : Type) where
  knownSubtotalUSD : A
  status : CostStatus
  source : String
  knownObservations : ℤ
  unknownObservations : ℤ
  deriving DecidableEq, Repr

section Costs

variable [Amounts A]

def exactCost (value : A) (source : String) : Cost A :=
  ⟨Amounts.round value, .exact, trimSpace source, 1, 0⟩

def unknownCost (source : String) : Cost A := ⟨Amounts.zero, .unknown, trimSpace source, 0, 1⟩

def unavailableCost : Cost A := ⟨Amounts.zero, .unavailable, "", 0, 0⟩

/-- The cost is valid. -/
def Cost.validate (c : Cost A) : Bool :=
  Amounts.valid c.knownSubtotalUSD && 0 ≤ c.knownObservations && 0 ≤ c.unknownObservations
    && match c.status with
      | .exact => c.knownObservations ≠ 0 && c.unknownObservations = 0
      | .partially => c.knownObservations ≠ 0 && c.unknownObservations ≠ 0
      | .unknown => c.knownObservations = 0 && c.unknownObservations ≠ 0
          && Amounts.isZero c.knownSubtotalUSD
      | .unavailable => c.knownObservations = 0 && c.unknownObservations = 0
          && Amounts.isZero c.knownSubtotalUSD
      | .unset | .other _ => false

def mergeSource (left right : String) : String :=
  let left := trimSpace left
  let right := trimSpace right
  if left = "" then right
  else if right = "" ∨ left = right then left
  else "mixed"

def addCost (left right : Cost A) : Option (Cost A) :=
  if left.status = .unavailable then if right.validate then some right else none
  else if right.status = .unavailable then if left.validate then some left else none
  else if !left.validate || !right.validate then none
  else
    let known := left.knownObservations + right.knownObservations
    let unknown := left.unknownObservations + right.unknownObservations
    let result : Cost A :=
      { knownSubtotalUSD := Amounts.add left.knownSubtotalUSD right.knownSubtotalUSD
        status := if 0 < known ∧ 0 < unknown then .partially
          else if 0 < known then .exact else .unknown
        source := mergeSource left.source right.source
        knownObservations := known
        unknownObservations := unknown }
    if result.validate then some result else none

/-! ## Ledgers -/

/-- **A usage with its cost.** -/
structure Ledger (A : Type) where
  usage : Usage
  cost : Cost A
  deriving DecidableEq, Repr

def emptyLedger : Ledger A := ⟨unavailableUsage, unavailableCost⟩

/-- The ledgers of a call: of its result and of everything it sent. -/
structure Accounting (A : Type) where
  result : Ledger A
  provider : Ledger A
  deriving DecidableEq, Repr

/-- **What the attempts of one call have used so far.** -/
structure ProviderAccumulator (A : Type) where
  ledger : Ledger A
  missingUsage : Bool
  deriving DecidableEq, Repr

def newProviderAccumulator : ProviderAccumulator A := ⟨emptyLedger, false⟩

namespace ProviderAccumulator

variable (p : ProviderAccumulator A)

/-- The cost with one more observation of which nothing is known. -/
def addUnknownCost (cost : Cost A) : Cost A := (addCost cost (unknownCost "unknown")).getD cost

/-- **One attempt is recorded**, usage and cost apart; the flag says that
both were in order. -/
def observe (dispatched : Bool) (o : Ledger A) : ProviderAccumulator A × Bool :=
  let usageValid := o.usage.validate
  let costValid := o.cost.validate
  let observed := dispatched || (usageValid && o.usage.status ≠ .unavailable)
    || (costValid && o.cost.status ≠ .unavailable)
  let added : Option Usage :=
    if !usageValid || o.usage.status = .unavailable then some p.ledger.usage
    else addUsage p.ledger.usage o.usage
  let missing :=
    if !usageValid || o.usage.status = .unavailable then observed else added.isNone
  let charged : Option (Cost A) :=
    if !costValid || o.cost.status = .unavailable then
      some (if observed then addUnknownCost p.ledger.cost else p.ledger.cost)
    else addCost p.ledger.cost o.cost
  let cost := charged.getD (if observed then addUnknownCost p.ledger.cost else p.ledger.cost)
  (⟨⟨added.getD p.ledger.usage, cost⟩, p.missingUsage || missing⟩,
    usageValid && costValid && added.isSome && charged.isSome)

/-- The accumulated ledger; measured totals with a gap are partial. -/
def total : Ledger A :=
  if p.missingUsage && p.ledger.usage.status ≠ .unavailable then
    { p.ledger with usage := { p.ledger.usage with status := .partially } }
  else p.ledger

end ProviderAccumulator

end Costs

/-! ## Pricing -/

/-- Rates per token. -/
structure Pricing (A : Type) where
  input : Option A := none
  cacheRead : Option A := none
  cacheCreation : Option A := none
  output : Option A := none
  reasoning : Option A := none
  deriving DecidableEq, Repr

variable [Amounts A]

def Pricing.rates (p : Pricing A) : List (Option A) :=
  [p.input, p.cacheRead, p.cacheCreation, p.output, p.reasoning]

/-- The charge of one component, if it was used and has a rate. -/
def chargeComponent (sum : A × ℤ × ℤ) (count : ℤ) (rate : Option A) : A × ℤ × ℤ :=
  if count = 0 then sum
  else match rate.filter Amounts.valid with
    | none => (sum.1, sum.2.1, sum.2.2 + 1)
    | some r => (Amounts.charge sum.1 count r, sum.2.1 + 1, sum.2.2)

/-- `ResolveCost` of a usage at a profile's rates, with nothing
reported. -/
def resolveCost (usage : Usage) (pricing : Pricing A) : Option (Cost A) :=
  if !usage.validate then none
  else if usage.status = .unavailable then some unavailableCost
  else
    let (subtotal, known, unknown) := (usage.components.zip pricing.rates).foldl
      (fun sum e => chargeComponent sum e.1 e.2) (Amounts.zero, 0, 0)
    if known = 0 ∧ unknown = 0 then
      some (if pricing.rates.all Option.isNone then unknownCost "missing_rate"
        else exactCost Amounts.zero "profile")
    else
      let cost : Cost A :=
        if 0 < known ∧ 0 < unknown then ⟨subtotal, .partially, "profile", 1, 1⟩
        else if 0 < known then ⟨subtotal, .exact, "profile", 1, 0⟩
        else ⟨subtotal, .unknown, "missing_rate", 0, 1⟩
      if cost.validate then some cost else none

end HardenLlm.Runtime
