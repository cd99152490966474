import HardenLlm.Gateway.Model.Call
import HardenLlm.Runtime.Final
import HardenLlm.Runtime.Validated
/-!
# Unconfirmed dispatches and replays

A dispatch whose outcome is not confirmed may have been carried out. It
ends its call, and the error carries a mark that keeps the caller from
sending the request again. The mark is lost where the runtime puts another
error in its place: the end of the call's context, or a failure of the
accounting; and an answer that came too late never has one.
-/

namespace HardenLlm

open Option

namespace Runtime

/-! ## Errors -/

namespace Fault

variable {f : Fault}

/-- The provider error that is found, with and without what it wraps. -/
theorem providerFault_cases (f : Fault) :
    (f.providerFault? = none ∧ f.provider? = none)
      ∨ (∃ p cause, f.providerFault? = some (.provider p cause) ∧ f.provider? = some p)
      ∨ ∃ p, f.providerFault? = some (.bare p) ∧ f.provider? = some p := by
  induction f with
  | canceled | deadlineExceeded | plain | validation | schemaContract | cacheIntegrity =>
    exact .inl ⟨rfl, rfl⟩
  | wrap text cause ih => exact ih
  | unconfirmed cause ih => exact ih
  | provider p cause => exact .inr (.inl ⟨p, cause, rfl, rfl⟩)
  | bare p => exact .inr (.inr ⟨p, rfl, rfl⟩)
  | join first second ih ih' =>
    simp only [providerFault?, provider?, find, none_or] at ih ih' ⊢
    rcases ih with ⟨h, h'⟩ | ⟨p, cause, h, h'⟩ | ⟨p, h, h'⟩
    · simp only [h, h', none_or]
      exact ih'
    · exact .inr (.inl ⟨p, cause, by simp [h], by simp [h']⟩)
    · exact .inr (.inr ⟨p, by simp [h], by simp [h']⟩)

theorem provider_uncategorized : f.uncategorized.provider?
    = f.provider?.map fun p => { p with category := some .other } := by
  unfold uncategorized
  rcases providerFault_cases f with ⟨h, h'⟩ | ⟨p, cause, h, h'⟩ | ⟨p, h, h'⟩ <;> rw [h, h'] <;> rfl

/-- **A provider error of no category is final.** -/
theorem terminal_of_other (h : ∀ p, f.provider? = some p → p.category = some .other) :
    f.Terminal := by
  intro policy
  unfold classify
  dsimp only
  split
  · simp
  split
  · simp
  split
  · simp
  · rename_i p hp
    simp [ProviderError.verdict, h p hp, Policy.retries]

end Fault

/-! ## Accounting -/

/-- The errors that a failure of the accounting does not replace. -/
def Fault.survives (f : Fault) : Bool :=
  f.isContext || f.provider?.any fun p => p.code ∈ authoritativeCodes

/-- What the failure of the accounting leaves: the error itself, or one of
its own. -/
theorem combineAccountingFailure_cases (f : Fault) :
    (f.survives = true ∧ combineAccountingFailure (some f) = f)
      ∨ (f.survives = false ∧ ∃ p, p.category = some .other ∧ p.code = "ACCOUNTING_INVALID"
        ∧ combineAccountingFailure (some f) = .provider p (.plain "provider accounting is invalid")
        ∧ combineAccountingFailure (some (combineAccountingFailure (some f)))
          = combineAccountingFailure (some f)) := by
  unfold Fault.survives
  by_cases hctx : f.isContext = true
  · exact .inl ⟨by simp [hctx], by simp [combineAccountingFailure, hctx]⟩
  simp only [combineAccountingFailure, hctx, if_false, Bool.false_or, Bool.false_eq_true]
  cases hp : f.provider? with
  | none => exact .inr ⟨rfl, _, rfl, rfl, rfl, rfl⟩
  | some p =>
    by_cases hcode : p.code ∈ authoritativeCodes
    · exact .inl ⟨by simp [hcode], by simp [hcode]⟩
    · refine .inr ⟨by simp [hcode], _, ?_, ?_, if_neg hcode, ?_⟩
      · rfl
      · rfl
      · simp only [if_neg hcode]
        rfl

variable {f : Fault}

/-- A final failure stays one. -/
theorem terminal_combine (h : f.Terminal) : (combineAccountingFailure (some f)).Terminal := by
  rcases combineAccountingFailure_cases f with ⟨-, heq⟩ | ⟨-, p, hcategory, -, heq, -⟩
  · rw [heq]
    exact h
  · rw [heq]
    refine Fault.terminal_of_other fun q hq => ?_
    cases hq
    exact hcategory

variable {A : Type} [Amounts A]

/-- **The accounting of a result is in order**: it can be priced, and
added to what the call has used. -/
def accounts (connection : Connection A) (accumulator : ProviderAccumulator A)
    (result : ProviderResult A) : Bool :=
  let ledger := normalizedLedger result.accounting
  if result.providerDispatched then
    match resolveAttemptCost ledger connection with
    | none => false
    | some cost => (accumulator.observe true { ledger with cost := cost }).2
  else (accumulator.observe false ledger).2

/-- **An attempt that failed** keeps its failure, unless the accounting
fails too. -/
theorem settle_failure (connection : Connection A) (accumulator : ProviderAccumulator A)
    (result : ProviderResult A) (f : Fault) :
    (settle connection accumulator result (some f)).failure
      = some (if accounts connection accumulator result then f
        else combineAccountingFailure (some f)) := by
  have hidem : combineAccountingFailure (some (combineAccountingFailure (some f)))
      = combineAccountingFailure (some f) := by
    rcases combineAccountingFailure_cases f with ⟨-, heq⟩ | ⟨-, p, -, -, -, hidem⟩
    · rw [heq, heq]
    · exact hidem
  unfold settle accounts
  dsimp only
  cases hdispatched : result.providerDispatched with
  | false =>
    simp only [Bool.false_eq_true, if_false]
    split <;> rfl
  | true =>
    simp only [if_true]
    cases hcost : resolveAttemptCost (normalizedLedger result.accounting) connection with
    | none =>
      -- Both parts of the accounting may fail; the second finds the first one's error.
      simp only [hidem, ite_self, Bool.false_eq_true, if_false]
    | some =>
      dsimp only
      split <;> rfl

end Runtime

namespace Gateway

open HardenLlm.Runtime

/-! ## Marks -/

/-- A mark goes with the error that the accounting replaces. -/
theorem uncertain_combine (f : Fault) :
    uncertain (combineAccountingFailure (some f)) = (uncertain f && f.survives) := by
  rcases combineAccountingFailure_cases f with ⟨hsurvives, heq⟩ | ⟨hlost, p, -, hcode, heq, -⟩
  · rw [heq, hsurvives, Bool.and_true]
  · rw [heq, hlost, Bool.and_false]
    simp [uncertain, Fault.isUnconfirmed, Fault.provider?, Fault.find, hcode]

theorem uncertain_marked (f : Fault) : uncertain (.unconfirmed f) = true := rfl

/-- A marked error is final: its category was taken from it. -/
theorem terminal_marked (f : Fault) : (Fault.unconfirmed f.uncategorized).Terminal := by
  refine Fault.terminal_of_other fun p hp => ?_
  have hfound : f.uncategorized.provider? = some p := hp
  rw [Fault.provider_uncategorized] at hfound
  obtain ⟨q, -, rfl⟩ := map_eq_some_iff.1 hfound
  rfl

variable {A : Type} {result : ProviderResult A}

/-- The mark that an unconfirmed outcome leaves. -/
theorem markedFailure_eq {failure : Option Fault}
    (h : (Batch.observeProviderDispatch result.dispatched (failure.map (·.execution))).kind =
      .unconfirmed) :
    ∃ f, failure = some f ∧ markedFailure result failure = some (.unconfirmed f.uncategorized) := by
  cases failure with
  | none => cases h
  | some f =>
    refine ⟨f, rfl, ?_⟩
    simp only [map_some] at h
    simp [markedFailure, h]

/-- The answer of a provider, as the runtime gets it. -/
theorem failure_of_unconfirmed {a : Batch.Attempt} {failure : Option Fault} {finished : ℤ}
    (h : (Batch.dispatchedOutcome a result.dispatched (failure.map (·.execution)) finished).kind =
      .unconfirmed) :
    (returnedLate a failure finished = true ∧ failure = none)
      ∨ (returnedLate a failure finished = false ∧ ∃ f, failure = some f
        ∧ markedFailure result failure = some (.unconfirmed f.uncategorized)) := by
  unfold Batch.dispatchedOutcome at h
  rw [isNone_map] at h
  cases hlate : returnedLate a failure finished with
  | true =>
    rw [returnedLate, Bool.and_eq_true] at hlate
    exact .inl ⟨rfl, isNone_iff_eq_none.1 hlate.1⟩
  | false =>
    rw [returnedLate] at hlate
    rw [hlate] at h
    exact .inr ⟨rfl, markedFailure_eq h⟩

/-! ## Answers -/

theorem shouldRetry_writeProviderError (p : ProviderError) (response : ErrorResponse A) :
    (writeProviderError p response).shouldRetry = response.shouldRetry := by
  unfold writeProviderError
  dsimp only
  split <;> split <;> first | rfl | (split <;> rfl)

theorem shouldRetry_writeCallError (f : Fault) (record : CallRecord A) (diagnostics : Bool) :
    (writeCallError f record diagnostics).shouldRetry
      = if uncertain f then some "false" else none := by
  unfold writeCallError
  dsimp only
  split
  · rfl
  split
  · rfl
  split
  · rfl
  split
  · rfl
  split
  · exact shouldRetry_writeProviderError _ _
  · rfl

/-! ## Dispatches -/

variable [Amounts A]

/-- **The accounting of a dispatch keeps its mark**: it is in order, or
the provider's error is one that it does not replace. -/
def Dispatch.accounted (connection : Connection A) (accumulator : ProviderAccumulator A) :
    Dispatch A → Bool
  | .managed d =>
    match d.reply with
    | .panicked => accounts connection accumulator noResult
    | .returned result failure =>
      accounts connection accumulator result || failure.any (·.uncategorized.survives)
  | .direct _ _ _ => true

/-- **What an unconfirmed dispatch leaves**: a final failure, marked
unless the answer came late. -/
structure Dispatch.Leaves (d : Dispatch A) (f : Fault) : Prop where
  failure : d.execute.failure = some f
  terminal : f.Terminal
  marked : uncertain f = !d.late
  entered : d.execute.entered = d.entering.isNone
  accounted : d.entering = none → d.late = false → ∀ connection accumulator,
    d.accounted connection accumulator
      = (accounts connection accumulator d.execute.result || f.survives)

theorem Dispatch.exists_leaves {d : Dispatch A} (h : d.unconfirmed = true) : ∃ f, d.Leaves f := by
  rcases d with ⟨begun, authorized, entering, reply, timing⟩ | ⟨entering, result, failure⟩
  swap
  · cases entering <;> cases h
  -- Only an invocation that holds its permit, with its context alive, leaves more than a refusal.
  rcases begun with f | a
  · cases h
  rcases authorized with _ | e
  swap
  · cases h
  rcases entering with _ | e
  · rcases reply with ⟨result, failure⟩ | _
    · have hkind : (Batch.dispatchedOutcome a result.dispatched (failure.map (·.execution))
          timing.finished).kind = .unconfirmed := of_decide_eq_true h
      rcases failure_of_unconfirmed hkind with ⟨hlate, rfl⟩ | ⟨hlate, f, rfl, hmarked⟩
      · refine ⟨.deadlineExceeded, ?_, terminal_of_isContext rfl, ?_, rfl, ?_⟩
        · exact if_pos hlate
        · simp [Dispatch.late, hlate, uncertain, Fault.isUnconfirmed, Fault.find, Fault.provider?]
        · intro _ hnot
          simp [Dispatch.late, hlate] at hnot
      · refine ⟨.unconfirmed f.uncategorized, ?_, terminal_marked f, ?_, rfl, fun _ _ _ _ => rfl⟩
        · simp [Dispatch.execute, ManagedDispatch.execute, track, hlate, hmarked]
        · simp [Dispatch.late, hlate, uncertain_marked]
    · refine ⟨executionUnconfirmed, rfl, Fault.terminal_of_other ?_, rfl, rfl, ?_⟩
      · intro p hp
        cases hp
        rfl
      · intro _ _ connection accumulator
        have hlost : executionUnconfirmed.survives = false := by decide
        rw [hlost, Bool.or_false]
        rfl
  · have hkind : (Batch.dispatchedOutcome a (noResult (A := A)).dispatched
        ((some e.fault).map (·.execution)) timing.finished).kind = .unconfirmed :=
      of_decide_eq_true h
    rcases failure_of_unconfirmed hkind with ⟨-, hnone⟩ | ⟨hlate, f, hf, hmarked⟩
    · cases hnone
    · refine ⟨.unconfirmed f.uncategorized, ?_, terminal_marked f, ?_, rfl, ?_⟩
      · simp [Dispatch.execute, ManagedDispatch.execute, track, hlate, hmarked]
      · cases reply <;> simp [Dispatch.late, uncertain_marked]
      · intro hout
        cases hout

/-! ## Sessions -/

namespace TrackingSession

variable {s : TrackingSession}

variable (h : s.record.finishedAt = none)
include h

/-- **What is heard does not finish a session**; it is told of an entry by
an event. -/
theorem hear_entered (event : SessionEvent) :
    (s.hear event).record.finishedAt = none
      ∧ (s.hear event).providerEntered = (s.providerEntered || event.entersProvider) := by
  cases event with
  | phase stage =>
    simp only [hear, phase, h, isSome_none, Bool.false_eq_true, if_false]
    cases stage <;> simp [SessionEvent.entersProvider, h] <;> split <;> simp [changed, h]
  | attempt | wait | resume | snapshot =>
    simp only [hear, attempt, wait, resume, snapshot, SessionEvent.entersProvider, Bool.or_false]
    split <;> exact ⟨h, rfl⟩
  | admissionWait reason =>
    simp only [hear, admissionWait, SessionEvent.entersProvider, Bool.or_false, h]
    cases reason <;> simp [h] <;> split <;> simp [changed, h]
  | progress =>
    simp only [hear, progress, SessionEvent.entersProvider, Bool.or_false]
    split
    · exact ⟨h, rfl⟩
    · split <;> exact ⟨h, rfl⟩

theorem hears_entered (events : List SessionEvent) :
    (s.hears events).record.finishedAt = none
      ∧ (s.hears events).providerEntered = (s.providerEntered || events.any (·.entersProvider)) := by
  induction events generalizing s with
  | nil => exact ⟨h, by simp [hears]⟩
  | cons event rest ih =>
    obtain ⟨hopen, hentered⟩ := hear_entered h event
    obtain ⟨hopen', hentered'⟩ := ih hopen
    refine ⟨hopen', ?_⟩
    rw [List.any_cons, ← Bool.or_assoc, ← hentered]
    exact hentered'

/-- **A call that entered the provider and failed with a mark** is
finished as unconfirmed. -/
theorem fail_unconfirmed {attempts : ℕ} {t t' : ℤ}
    (hentered : s.providerEntered = true) (hf : uncertain f = true) :
    (s.fail f attempts t t').record.status = .unconfirmed
      ∧ (s.fail f attempts t t').record.outcomeConfirmed = some false := by
  obtain ⟨hopen, hsame⟩ := hear_entered h (.attempt attempts t)
  have hin : (s.attempt attempts t).providerEntered = true := by
    rw [hear, hentered] at hsame
    exact hsame
  have hfinish (code : Option TrackingCode) :
      ((s.attempt attempts t).finish .unconfirmed code false t').record.status = .unconfirmed
        ∧ ((s.attempt attempts t).finish .unconfirmed code false t').record.outcomeConfirmed
          = some false := by
    rw [hear] at hopen
    simp [finish, hopen, changed]
  unfold fail
  dsimp only
  split
  · exact hfinish _
  · rw [if_pos]
    · exact hfinish _
    · rw [hin, Bool.true_and]
      rw [uncertain, Bool.or_eq_true] at hf
      rcases hf with hf | hf
      · simp [hf]
      · obtain ⟨p, hp, hcode⟩ := (any_eq_true _ _).1 hf
        simp [hp, hcode]

end TrackingSession

/-! ## Calls -/

namespace GatewayCall

variable {g : GatewayCall A} {e : Ending A} {x : Execution A}

/-- **A session knows whether the provider was entered.** -/
theorem session_entered (g : GatewayCall A) (registration : Registration) (e : Ending A) :
    (g.session registration e).record.finishedAt = none
      ∧ (g.session registration e).providerEntered
        = (executions e.actions).any fun x => (g.exchangeOf x).dispatch.execute.entered := by
  have hfold (runs : List (Execution A)) (s : TrackingSession) (h : s.record.finishedAt = none) :
      (runs.foldl (fun s x => s.hears (g.exchangeOf x).heard) s).record.finishedAt = none
        ∧ (runs.foldl (fun s x => s.hears (g.exchangeOf x).heard) s).providerEntered
          = (s.providerEntered || runs.any fun x => (g.exchangeOf x).dispatch.execute.entered) := by
    induction runs generalizing s with
    | nil => exact ⟨h, by simp⟩
    | cons x rest ih =>
      obtain ⟨hopen, hentered⟩ := TrackingSession.hears_entered h (g.exchangeOf x).heard
      obtain ⟨hopen', hentered'⟩ := ih _ hopen
      refine ⟨hopen', ?_⟩
      rw [(g.exchangeOf x).tells] at hentered
      rw [List.any_cons, ← Bool.or_assoc, ← hentered]
      exact hentered'
  obtain ⟨hopen, hentered⟩ :=
    hfold (executions e.actions) { record := registration.record } registration.unfinished
  exact ⟨hopen, hentered.trans (Bool.false_or _)⟩

/-- A tracked call that entered the provider and returns a marked error
ends as unconfirmed. -/
theorem failed_unconfirmed (hx : x ∈ executions e.actions)
    (hentered : (g.exchangeOf x).dispatch.execute.entered = true) (hf : uncertain f = true)
    (registration : Registration) :
    (g.failed registration e f).record.status = .unconfirmed
      ∧ (g.failed registration e f).record.outcomeConfirmed = some false := by
  obtain ⟨hopen, hsession⟩ := session_entered g registration e
  have hin : (g.session registration e).providerEntered = true :=
    hsession.trans (List.any_eq_true.2 ⟨x, hx, hentered⟩)
  obtain ⟨hopen', hsame⟩ := TrackingSession.hear_entered hopen
    (.attempt (max e.record.attempts.length e.record.diagnostics.attemptsUsed : ℕ) g.observed)
  rw [hin] at hsame
  exact TrackingSession.fail_unconfirmed hopen' hsame hf

/-- **An unconfirmed attempt does not invite a replay**: it is the last
one of its call, the error answer tells the caller not to retry, and a
tracked request ends as unconfirmed. -/
structure Contained (g : GatewayCall A) (e : Ending A) (x : Execution A) : Prop where
  last : ∀ y ∈ executions e.actions, y.number ≤ x.number
  answered : ∃ response, g.response e = some response ∧ response.shouldRetry = some "false"
  tracked : ∀ registration, g.registration = some registration → ∀ f, e.err = some f →
    (g.failed registration e f).record.status = .unconfirmed
      ∧ (g.failed registration e f).record.outcomeConfirmed = some false

/-- **An unconfirmed attempt reports its mark**: the context has not ended
when the runtime looks after the attempt, the answer did not come late,
and the accounting keeps the error. -/
structure Reported (g : GatewayCall A) (x : Execution A) : Prop where
  active : executionContextError g.inv.deadline (g.exchangeOf x).round.settled = none
  inTime : (g.exchangeOf x).dispatch.late = false
  accounted : (g.exchangeOf x).dispatch.accounted x.connection x.accumulator = true

/-- **How an unconfirmed attempt ends its call.** -/
theorem ends_of_leaves (h : g.run = some e) (hx : x ∈ executions e.actions)
    (hf : (g.exchangeOf x).dispatch.Leaves f) :
    (∀ y ∈ executions e.actions, y.number ≤ x.number)
      ∧ e.err = (executionContextError g.inv.deadline (g.exchangeOf x).round.settled).or
        (some (if accounts x.connection x.accumulator (g.exchangeOf x).dispatch.execute.result then f
          else combineAccountingFailure (some f))) := by
  refine execute_ends h x hx _ ⟨?_, ?_⟩
  · rw [← settle_failure, ← hf.failure]
    rfl
  · split
    · exact hf.terminal
    · exact terminal_combine hf.terminal

/-- The header that an error answer carries. -/
theorem answered_iff (h : e.err = some f) :
    (∃ response, g.response e = some response ∧ response.shouldRetry = some "false")
      ↔ uncertain f = true := by
  have hresponse : g.response e = some (writeCallError f e.record g.diagnostics) := by
    rw [response, h, map_some]
  rw [hresponse]
  simp only [Option.some.injEq, exists_eq_left', shouldRetry_writeCallError]
  cases uncertain f <;> simp

/-- A context that had ended at the provider's door has ended after the
attempt. -/
theorem entering_eq_none {y : Exchange A} {deadline : Option ℤ}
    (h : executionContextError deadline y.round.settled = none) : y.dispatch.entering = none := by
  by_contra hentering
  obtain ⟨c, hc⟩ := isSome_iff_exists.1 (y.stays (isSome_iff_ne_none.2 hentering))
  simp [executionContextError, hc] at h

/-- **An unconfirmed attempt is contained where it reports its mark.** -/
theorem contained_iff (h : g.run = some e) (hx : x ∈ executions e.actions)
    (hd : (g.exchangeOf x).dispatch.unconfirmed = true) : Contained g e x ↔ Reported g x := by
  obtain ⟨f, hf⟩ := Dispatch.exists_leaves hd
  obtain ⟨hlast, herr⟩ := ends_of_leaves h hx hf
  cases hctx : executionContextError g.inv.deadline (g.exchangeOf x).round.settled with
  | some =>
    -- The context's error takes the mark's place.
    rw [hctx, some_or] at herr
    refine ⟨fun hcontained => ?_, fun hreported => ?_⟩
    · have huncertain := (answered_iff herr).1 hcontained.answered
      rcases isContext_of_contextError hctx with rfl | rfl <;> cases huncertain
    · rw [hreported.active] at hctx
      cases hctx
  | none =>
    rw [hctx, none_or] at herr
    have hentering := entering_eq_none hctx
    have huncertain : uncertain (if accounts x.connection x.accumulator
          (g.exchangeOf x).dispatch.execute.result then f else combineAccountingFailure (some f))
        = (!(g.exchangeOf x).dispatch.late && (accounts x.connection x.accumulator
          (g.exchangeOf x).dispatch.execute.result || f.survives)) := by
      split
      · rename_i haccounts
        rw [haccounts, hf.marked, Bool.true_or, Bool.and_true]
      · rename_i haccounts
        rw [uncertain_combine, hf.marked, Bool.eq_false_iff.2 haccounts, Bool.false_or]
    refine ⟨fun hcontained => ?_, fun hreported => ?_⟩
    · have hmarked := (answered_iff herr).1 hcontained.answered
      rw [huncertain, Bool.and_eq_true, Bool.not_eq_true'] at hmarked
      refine ⟨hctx, hmarked.1, ?_⟩
      rw [hf.accounted hentering hmarked.1]
      exact hmarked.2
    · have haccounted := hreported.accounted
      rw [hf.accounted hentering hreported.inTime] at haccounted
      rw [hreported.inTime, haccounted] at huncertain
      refine ⟨hlast, (answered_iff herr).2 huncertain, fun registration _ f' hf' => ?_⟩
      cases herr.symm.trans hf'
      refine failed_unconfirmed hx ?_ huncertain registration
      rw [hf.entered, hentering]
      rfl

end GatewayCall

namespace Sample

def call : Invocation ℤ where
  connection := { id := "managed", provider := "openai" }
  credential := ⟨"key", []⟩
  call := { connections := fun _ => none, modelID := "m", callType := .text }
  policy := { maxAttempts := 2, retryOn := some [], backoff := ⟨0, 0⟩ }
  deadline := some 2
  parseURL := fun _ => none

def prepared : PreparedOperation :=
  ⟨{ protocol := "responses", endpointIdentity := "e", model := "m" }, true⟩

def opening : Opening ℤ := { Runtime.Sample.opening with prepared := .ok prepared }

def permit : Batch.Attempt where
  permitID := "p"
  poolID := "pool"
  generation := 1
  sequence := 1
  ref := ⟨"", "", 0⟩
  kind := .ordinary
  workflowID := ""
  grantedAt := 0
  startBy := 10
  deadline := 20
  budgetMS := 10
  windowID := 1
  epoch := 1
  policyRevision := 1
  probe := false
  ordinal := 1

/-- The connection broke after the request was sent. -/
def broken : Fault := .bare { category := some .network, code := "NETWORK_ERROR" }

def dispatch : Dispatch ℤ :=
  .managed
    { begun := .ok permit
      reply := .returned { accounting := emptyLedger, providerDispatched := true } (some broken)
      timing := ⟨0, 1, 1, 2, 2⟩ }

/-- The deadline of the call passes while its request is in the provider. -/
def exchange : Exchange ℤ where
  round :=
    { Runtime.Sample.round noResult none with
      finished := 2, settled := ⟨some .deadlineExceeded, 2⟩, ended := 2 }
  dispatch := dispatch
  heard := [.phase .providerAttempt 1]
  tells := by decide +kernel
  stays := by simp [dispatch, Dispatch.entering]

def timedOut : GatewayCall ℤ where
  inv := call
  opening := opening
  exchange := fun _ => exchange
  observed := 2
  noted := 2
  finished := 2

end Sample

open Sample

end Gateway

end HardenLlm
