import HardenLlm.Batch.Model.Types
/-!
# The admission controller

`controller.go`: pacing, cooling and the recovery probe. The controller
holds no clock; whoever calls it says what time it is.
-/

namespace HardenLlm.Batch

structure Policy where
  concurrency : ℤ
  burst : ℤ
  startRate : ℤ
  maximumRate : ℤ
  refillEstimate : ℤ
  windowRequests : ℤ
  windowDuration : ℤ
  recoveryJitterMS : ℤ := 0
  deriving DecidableEq, Repr

/-- The policies `Validate` accepts. -/
def Policy.Valid (p : Policy) : Prop :=
  1 ≤ p.concurrency ∧ p.concurrency ≤ 1000 ∧ 1 ≤ p.burst ∧ p.burst ≤ 1000 ∧ 1 ≤ p.startRate
    ∧ p.startRate ≤ p.maximumRate ∧ p.maximumRate ≤ 1000 ∧ second ≤ p.refillEstimate
    ∧ p.refillEstimate ≤ 3600 * second ∧ 0 ≤ p.recoveryJitterMS ∧ p.recoveryJitterMS ≤ 1000
    ∧ 0 ≤ p.windowRequests ∧ p.windowRequests ≤ 1000
    ∧ (0 < p.windowRequests → second ≤ p.windowDuration ∧ p.windowDuration ≤ 3600 * second)

instance (p : Policy) : Decidable p.Valid := inferInstanceAs (Decidable (_ ∧ _))

structure Controller where
  policy : Policy
  rate : ℤ
  burstLeft : ℤ
  successes : ℤ := 0
  epoch : ℤ := 0
  nextStart : ℤ := 0
  nextEligible : ℤ := 0
  cooling : Bool := false
  probing : Bool := false
  probeDelay : ℤ
  paused : Bool := false
  windowStart : ℤ := 0
  windowStarts : ℤ := 0
  refillWindowBurst : Bool := true
  pacedRecovery : Bool := true
  accumulatePace : Bool := true
  honorFailureHints : Bool := true
  deriving DecidableEq, Repr

/-- `NewController`. -/
def Controller.new (p : Policy) : Controller :=
  { policy := p, rate := p.startRate, burstLeft := p.burst, probeDelay := 2 * second }

namespace Controller

variable (c : Controller)

/-- A valid policy replaces the old one and its pace. -/
def configure (p : Policy) : Option Controller :=
  if p.Valid then some { c with policy := p, rate := p.startRate, successes := 0 } else none

/-- When a full window ends, or `0`. -/
def windowWait (now : ℤ) : ℤ :=
  if 0 < c.policy.windowRequests ∧ c.policy.windowRequests ≤ c.windowStarts
      ∧ now < c.windowStart + c.policy.windowDuration then
    c.windowStart + c.policy.windowDuration
  else 0

/-- **May another request start**, with `active` of them out. -/
def canStart (now : ℤ) (active : ℤ) : Bool :=
  if c.paused ∨ c.policy.concurrency ≤ active ∨ c.probing then false
  else if c.cooling then c.nextEligible ≤ now
  else if c.windowWait now ≠ 0 then false
  else 0 < c.burstLeft ∨ c.nextStart ≤ now

/-- The window's share of a start. -/
def startWindow (now : ℤ) : Controller :=
  if 0 < c.policy.windowRequests then
    let c₁ :=
      if c.windowStart = 0 ∨ c.windowStart + c.policy.windowDuration ≤ now then
        { c with
          burstLeft :=
            if c.windowStart ≠ 0 ∧ c.refillWindowBurst then c.policy.burst else c.burstLeft
          windowStart := now
          windowStarts := 0 }
      else c
    { c₁ with windowStarts := c₁.windowStarts + 1 }
  else c

/-- The pacer's share of a start outside cooling. -/
def startPace (now : ℤ) : Controller :=
  let interval := second.tdiv c.rate
  if 0 < c.burstLeft then { c with burstLeft := c.burstLeft - 1, nextStart := now + interval }
  else if c.accumulatePace then
    { c with nextStart := max c.nextStart (now - (c.policy.burst - 1) * interval) + interval }
  else { c with nextStart := now + interval }

/-- **A request starts.** While cooling it is the recovery probe. -/
def start (now : ℤ) : Controller :=
  let c₁ := c.startWindow now
  let c₂ := if c₁.epoch = 0 then { c₁ with epoch := now } else c₁
  if c₂.cooling then { c₂ with probing := true } else c₂.startPace now

/-- The probe's success ends the cooling at the adapted pace. -/
def recover (now : ℤ) : Controller :=
  if c.probing then
    { c with
      cooling := false
      probing := false
      epoch := now
      nextEligible := 0
      burstLeft := if c.pacedRecovery then 0 else c.policy.burst - 1
      nextStart := now
      probeDelay := 2 * second
      successes := 0 }
  else c

/-- A hundred successes in a row double the pace. -/
def countSuccess : Controller :=
  if 100 ≤ c.successes + 1 then
    { c with rate := min c.policy.maximumRate (c.rate * 2), successes := 0 }
  else { c with successes := c.successes + 1 }

def success (now : ℤ) : Controller := (c.recover now).countSuccess

/-- **Cooling begins or is prolonged.** A throttled probe is over, and the
next one waits longer. -/
def throttle (now delay : ℤ) : Controller :=
  let c₁ := if c.cooling then c else { c with rate := max 1 (c.rate.tdiv 2), successes := 0 }
  let c₂ :=
    if c₁.probing then
      { c₁ with probing := false, probeDelay := min (60 * second) (c₁.probeDelay * 2) }
    else c₁
  let next :=
    if delay ≤ 0 then max (now + c₂.probeDelay) (c₂.epoch + c₂.policy.refillEstimate)
    else now + delay
  { c₂ with cooling := true, nextEligible := max next c₂.nextEligible }

/-- A throttle of the current epoch; one that is not the probe's leaves
the probe running. -/
def completeThrottle (now dispatched : ℤ) (probe : Bool) (delay : ℤ) : Controller :=
  if dispatched < c.epoch then c
  else if probe then c.throttle now delay
  else { ({ c with probing := false }.throttle now delay) with probing := c.probing }

/-- `"terminal_throttle"`: an outcome that is final for its item and still
throttles admission. -/
def terminalThrottle : OutcomeKind := .other "terminal_throttle"

/-- A refused request of the present window gives its start back. -/
def refundWindow (reserved : ℤ) : Controller :=
  if 0 < c.policy.windowRequests ∧ c.windowStart ≤ reserved ∧ 0 < c.windowStarts then
    { c with windowStarts := c.windowStarts - 1 }
  else c

/-- The kind's own share of `Complete`. -/
def completeKind (now dispatched reserved : ℤ) (probe : Bool) (kind : OutcomeKind) (delay : ℤ) :
    Controller :=
  if kind = .rejected then (c.refundWindow reserved).completeThrottle now dispatched probe delay
  else if kind = terminalThrottle then c.completeThrottle now dispatched probe delay
  else if kind = .failed ∨ kind = .unconfirmed then
    if c.honorFailureHints ∧ 0 < delay then c.completeThrottle now dispatched probe delay else c
  else if kind = .completed then
    if ¬ c.cooling ∨ probe then
      if probe then { c.success now with epoch := dispatched } else c.success now
    else c
  else if kind = .policy then { c with paused := true }
  else c

/-- **An admitted request ends.** A probe that neither succeeded nor was
refused is throttled like one that was. -/
def complete (now dispatched reserved : ℤ) (probe : Bool) (kind : OutcomeKind) (delay : ℤ) :
    Controller :=
  let c₁ := c.completeKind now dispatched reserved probe kind delay
  if probe ∧ c₁.probing ∧ kind ≠ .completed ∧ kind ≠ .rejected then c₁.throttle now 0 else c₁

/-- A retry hint as a duration, saturating. -/
def retryDelay (ms : ℤ) : ℤ :=
  if ms > maxInt64.tdiv millisecond then maxInt64 else max 0 ms * millisecond

/-- The kind admission reads off an outcome. -/
def admissionKind (out : Outcome) : OutcomeKind :=
  if out.admission = .restricted then .policy
  else if out.admission = .throttled ∧ out.kind ≠ .rejected then terminalThrottle
  else out.kind

/-- Replay eligibility and future admission are separate: the outcome's
admission overrides its kind here. -/
def completeOutcome (now dispatched reserved : ℤ) (probe : Bool) (out : Outcome) : Controller :=
  c.complete now dispatched reserved probe (admissionKind out) (retryDelay out.retryAfterMS)

end Controller

end HardenLlm.Batch
