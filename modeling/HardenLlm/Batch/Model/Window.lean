import HardenLlm.Batch.Model.Workflow
/-!
# A pool's window credit

A pool's run beside the permits whose start was given back to the window
they were granted in, and the requests a window may take.
-/

namespace HardenLlm.Batch

/-- The outcome gives its permit's start back: the provider was not
reached, or refused the request without restricting the account. -/
def Outcome.refundable (out : Outcome) : Bool :=
  out.kind = .neverDispatched || (out.kind = .rejected && out.admission ≠ .restricted)

/-- The permit refunded by an act: its outcome is applied while its window
is current. -/
def PoolRun.refunds (r : PoolRun) : PoolAct → List String
  | .observe a =>
    if (r.pool.applies a).any Outcome.refundable ∧ a.windowID = r.pool.windowID then [a.permitID]
    else []
  | _ => []

/-- A pool's run, and the permits refunded in it, oldest first. -/
structure Metered where
  run : PoolRun
  refunded : List String

namespace Metered

variable (m : Metered)

/-- The requests a window may take are positive, and at most `limit`. -/
def Within (limit : ℤ) : Prop :=
  0 < m.run.pool.controller.policy.windowRequests
    ∧ m.run.pool.controller.policy.windowRequests ≤ limit

/-- The permits granted in a window. -/
def grantsOf (window : ℤ) : ℕ := m.run.granted.countP fun p => p.windowID = window

/-- Those of them that were refunded while it was current. -/
def refundsOf (window : ℤ) : ℕ :=
  m.run.granted.countP fun p => p.windowID = window ∧ p.permitID ∈ m.refunded

/-- The requests of a window that are neither probes nor refunded. -/
def loadOf (window : ℤ) : ℕ :=
  m.run.granted.countP fun p =>
    p.windowID = window ∧ p.probe = false ∧ p.permitID ∉ m.refunded

end Metered

/-- **A pool's runs whose windows are metered** all along. No clock shows
the zero time. -/
def metered (H : Hashes) (limit : ℤ) : System Metered where
  init m := (pools H).init m.run ∧ 0 < m.run.now ∧ m.Within limit ∧ m.refunded = []
  step m m' := ∃ t act, m.run.now ≤ t ∧ m.run.Permits act
    ∧ m' = ⟨m.run.act H t act, m.refunded ++ m.run.refunds act⟩ ∧ m'.Within limit

end HardenLlm.Batch
