import HardenLlm.Batch.Model.Workers
import HardenLlm.Batch.Authorization
import HardenLlm.Batch.Joint
/-!
# Evidence is true of the invocation it names

Local-stop evidence is sent only by an invocation that returned or gave up
outside the provider; `never_dispatched` only by one that gave up outside;
and a job's `rejected` only by one whose call was refused. A row carries
evidence of its own claim's nonce, a reconciliation repeats what a row or
an artifact already says, and an invocation that is over stays over. So
whatever is written of an invocation, in whatever order it arrives, is
true, and stays true.
-/

namespace HardenLlm.Batch

open List

variable {H : Hashes} {size : AttemptObservation → ℕ} {a : Attempt} {o : AttemptObservation}

/-! ## What an observation can say -/

/-- A provider's answer is a restriction, a refusal or a failure. -/
theorem classifyAttemptError_kind (err : ExecutionError) :
    (classifyAttemptError err).1 ∈ [.policy, .rejected, OutcomeKind.failed] := by
  unfold classifyAttemptError
  cases err.provider with
  | none => simp
  | some =>
    dsimp only [ProviderError.verdict]
    split_ifs <;> simp

/-- A classified error is never `never_dispatched`. -/
theorem classifyGenerationError_ne (err : ExecutionError) (result : Result) :
    (classifyGenerationError err result).1 ≠ .neverDispatched := by
  have hkind := classifyAttemptError_kind err
  simp only [classifyGenerationError]
  split_ifs
  · simp
  · intro h
    simp [h] at hkind

/-- A refusal is classified before any output. -/
theorem classifyGenerationError_rejected {err : ExecutionError} {result : Result}
    (h : (classifyGenerationError err result).1 = .rejected) :
    (classifyAttemptError err).1 = .rejected ∧ result.hasOutput = false := by
  simp only [classifyGenerationError] at h
  split_ifs at h with hout
  exact ⟨h, by simpa [h] using hout⟩

variable {out : Outcome}

/-- **`InvokeAttempt` reports only refusals as such.** -/
theorem refusal_of_rejected {result : Result} {err : ExecutionError}
    (h : (erredOutcome out result err).kind = .rejected) : Refusal result err := by
  simp only [erredOutcome] at h
  split_ifs at h with hanswer
  simp only [ExecutionError.unanswered, Bool.or_eq_true, not_or, Bool.not_eq_true] at hanswer
  obtain ⟨⟨hprovider, hcanceled⟩, hdeadline⟩ := hanswer
  obtain ⟨hclass, hout⟩ := classifyGenerationError_rejected h
  simp only [Result.hasOutput, Bool.or_eq_false_iff, decide_eq_false_iff_not, not_not, Int.not_lt,
    any_eq_false, ne_eq] at hout
  obtain ⟨⟨⟨htext, hbytes⟩, hpoints⟩, hstreams⟩ := hout
  refine ⟨?_, hcanceled, hdeadline, hclass, htext, ⟨hbytes, hpoints⟩, ?_⟩
  · cases hp : err.provider with
    | none => simp [hp] at hprovider
    | some p => exact ⟨p, rfl, by simpa [hp] using hprovider⟩
  · intro s hs
    simpa using hstreams _ hs

/-- A call that returned a result was neither unsent nor refused. -/
theorem answeredOutcome_ne (out : Outcome) (permit : String) (deadline : ℤ) (after : Aftermath) :
    (answeredOutcome out permit deadline after).kind ≠ .neverDispatched
      ∧ (answeredOutcome out permit deadline after).kind ≠ .rejected := by
  unfold answeredOutcome
  split_ifs <;> simp

theorem observeProviderDispatch_ne (r : ProviderResult) (err : Option ExecutionError) :
    (observeProviderDispatch r err).kind ≠ .neverDispatched := by
  unfold observeProviderDispatch
  cases err with
  | none => simp
  | some err =>
    dsimp only
    split_ifs
    · simp
    · exact classifyGenerationError_ne err _

/-- An invocation that did not enter never says it was refused. -/
theorem Declines.kind (h : Declines o) : o.outcome.kind ≠ .rejected := by
  cases h <;> simp [neverSent, panickedObservation, neverDispatchedAt, ordinaryObservation,
    Batch.ordinaryPanicked]

/-- One that panicked inside says nothing. -/
theorem Abandons.silent {kind : Kind} (h : Abandons a kind o) :
    o.outcome.kind = .unconfirmed ∧ o.localStopped = false := by
  cases h <;> exact ⟨rfl, rfl⟩

/-- **What is said of a call that returned.** -/
theorem Concludes.says {reply : Reply} (h : Concludes a reply o) :
    o.outcome.kind ≠ .neverDispatched
      ∧ (o.outcome.kind = .rejected → reply.kind = .job → reply.Refused) := by
  cases h with
  | @job result err item started deadline now after =>
    cases err with
    | none =>
      have hne := answeredOutcome_ne (copyAttemptDiagnostics
        { enteredOutcome a item started deadline with
          finishedAt := some after.finished, durationMS := after.durationMS } result)
        a.permitID deadline after
      exact ⟨hne.1, fun h => absurd h hne.2⟩
    | some err =>
      refine ⟨?_, fun h _ => refusal_of_rejected h⟩
      dsimp only [returnedOutcome, erredOutcome]
      split_ifs
      · simp
      · exact classifyGenerationError_ne err result
  | jobPanicked => simp [panickedObservation]
  | @ordinary result err =>
    refine ⟨?_, fun _ hk => by cases hk⟩
    dsimp only [ordinaryObservation, dispatchedOutcome]
    split_ifs
    · simp
    · exact observeProviderDispatch_ne result err
  | ordinaryPanicked => simp [ordinaryObservation, Batch.ordinaryPanicked]

/-! ## Outcomes and admission -/

/-- **An outcome's kind and admission agree**: a restriction is no
success, and no throttle. -/
structure Outcome.Consistent (out : Outcome) : Prop where
  policy : out.kind = .policy → out.admission ≠ .throttled
  restricted : out.admission = .restricted → out.kind ≠ .completed ∧ out.kind ≠ .neverDispatched

theorem Outcome.Consistent.of_quiet (h : out.admission = .other "") : out.Consistent :=
  ⟨fun _ => by simp [h], fun hr => by simp [h] at hr⟩

theorem Outcome.Consistent.of_unconfirmed (h : out.kind = .unconfirmed) : out.Consistent :=
  ⟨fun hk => by simp [h] at hk, fun _ => by simp [h]⟩

/-- An error's kind and its admission come from one classification. -/
theorem Outcome.Consistent.of_error (err : ExecutionError) (result : Result)
    (hkind : out.kind = .unconfirmed ∨ out.kind = (classifyGenerationError err result).1)
    (hadm : out.admission = err.admission) : out.Consistent := by
  obtain hkind | hkind := hkind
  · exact .of_unconfirmed hkind
  · rw [classifyGenerationError] at hkind
    dsimp only at hkind
    split_ifs at hkind
    · exact .of_unconfirmed hkind
    · have hmem := classifyAttemptError_kind err
      rw [ExecutionError.admission] at hadm
      constructor
      · intro hp
        rw [hkind] at hp
        simp [hadm, hp]
      · intro hr
        simp only [mem_cons, not_mem_nil, or_false] at hmem
        rcases hmem with h | h | h <;> simp [hkind, hadm, h] at hr ⊢

theorem copyAttemptDiagnostics_admission (out : Outcome) (result : Result) :
    (copyAttemptDiagnostics out result).admission = out.admission := by
  have hfold : ∀ (copy : Outcome → Option StreamDiagnostics → Outcome),
      (∀ out stream, (copy out stream).admission = out.admission) →
      ∀ (l : List _) (out : Outcome), (l.foldl copy out).admission = out.admission := by
    intro copy hcopy l
    induction l with
    | nil => exact fun _ => rfl
    | cons stream l ih =>
      intro out
      rw [foldl_cons, ih, hcopy]
  unfold copyAttemptDiagnostics
  dsimp only
  split_ifs <;> exact hfold _ (fun out stream => by cases stream <;> rfl) _ _

theorem answeredOutcome_admission (out : Outcome) (permit : String) (deadline : ℤ)
    (after : Aftermath) : (answeredOutcome out permit deadline after).admission = out.admission := by
  unfold answeredOutcome
  split_ifs <;> rfl

theorem Declines.consistent (h : Declines o) : o.outcome.Consistent := by
  cases h with
  | panicked out hquiet => exact .of_quiet hquiet
  | _ => exact .of_quiet rfl

theorem Concludes.consistent {reply : Reply} (h : Concludes a reply o) : o.outcome.Consistent := by
  cases h with
  | @job result err =>
    cases err with
    | none =>
      refine .of_quiet ?_
      exact (answeredOutcome_admission ..).trans (copyAttemptDiagnostics_admission ..)
    | some err =>
      refine .of_error err result ?_ rfl
      dsimp only [returnedOutcome, erredOutcome]
      split_ifs
      · exact .inl rfl
      · exact .inr rfl
  | jobPanicked => exact .of_unconfirmed rfl
  | @ordinary result err =>
    cases err with
    | none =>
      refine .of_quiet ?_
      dsimp only [ordinaryObservation, dispatchedOutcome]
      split_ifs <;> rfl
    | some err =>
      refine .of_error err
        { assistantText := result.assistantText, outputBytes := result.stream.outputBytes
          outputCodePoints := result.stream.outputCodePoints } ?_ rfl
      simp only [ordinaryObservation, dispatchedOutcome, Option.isNone_some, Bool.false_and,
        Bool.false_eq_true, if_false, observeProviderDispatch]
      split_ifs
      · exact .inl rfl
      · exact .inr rfl
  | ordinaryPanicked => exact .of_quiet rfl

/-! ## What is true of an invocation -/

namespace Workers

/-- **The invocation is over**: it gave up outside, or its call
returned. -/
def Over (s : Workers) (nonce : String) : Prop :=
  s.Aborted nonce ∨ ∃ permit reply, s.flight nonce = .returned permit reply

/-- **The observation is true** of the invocation of `nonce` on
`permit`. -/
structure Attests (s : Workers) (nonce permit : String) (o : AttemptObservation) : Prop where
  stopped : o.localStopped = true → s.Over nonce
  unsent : o.outcome.kind = .neverDispatched → s.Aborted nonce
  refused : o.outcome.kind = .rejected →
    ∃ reply, s.flight nonce = .returned permit reply ∧ (reply.kind = .job → reply.Refused)
  consistent : o.outcome.Consistent

/-- What a row says of its claim is true. -/
structure Vouches (s : Workers) (a : Attempt) : Prop where
  stopped : a.stoppedAt ≠ none → s.Over a.claimID
  observed : ∀ o, a.observation = some o → s.Attests a.claimID a.permitID o

/-- What a transaction says of an invocation is true. -/
def Supports (s : Workers) : Op → Prop
  | .markLocalStop _ nonce _ => s.Over nonce
  | .stageAttempt permit nonce o | .settleAttempt permit nonce o => s.Attests nonce permit o
  | _ => True

/-- What is over stays so. -/
structure Advances (s s' : Workers) : Prop where
  aborted : ∀ nonce, s.Aborted nonce → s'.Aborted nonce
  returned : ∀ nonce permit reply, s.flight nonce = .returned permit reply →
    s'.flight nonce = .returned permit reply

end Workers

variable {s s' : Workers} {nonce permit : String} {db' : DB} {op : Op} {c : Clock}

namespace Workers

theorem supports_of_plain (h : op.testifies = false) : s.Supports op := by
  cases op with
  | stageAttempt | settleAttempt | markLocalStop => cases h
  | _ => trivial

namespace Advances

theorem stays_over (h : s.Advances s') (ho : s.Over nonce) : s'.Over nonce := by
  obtain ho | ⟨permit, reply, ho⟩ := ho
  · exact .inl (h.aborted nonce ho)
  · exact .inr ⟨permit, reply, h.returned nonce permit reply ho⟩

theorem attests (h : s.Advances s') (ho : s.Attests nonce permit o) :
    s'.Attests nonce permit o where
  stopped hs := h.stays_over (ho.stopped hs)
  unsent hk := h.aborted nonce (ho.unsent hk)
  refused hk := by
    obtain ⟨reply, hflight, hrefused⟩ := ho.refused hk
    exact ⟨reply, h.returned _ _ _ hflight, hrefused⟩
  consistent := ho.consistent

theorem vouches (h : s.Advances s') (ha : s.Vouches a) : s'.Vouches a where
  stopped hs := h.stays_over (ha.stopped hs)
  observed o ho := h.attests (ha.observed o ho)

theorem supports (h : s.Advances s') (ho : s.Supports op) : s'.Supports op := by
  cases op with
  | markLocalStop => exact h.stays_over ho
  | stageAttempt | settleAttempt => exact h.attests ho
  | _ => trivial

end Advances

/-- Steps that move no invocation. -/
theorem advances_of_eq (hf : s'.flight = s.flight) (hp : s'.callers.phase = s.callers.phase) :
    s.Advances s' := by
  constructor
  · intro n hn
    rw [Aborted, hf, hp]
    exact hn
  · intro n permit reply hn
    rw [hf]
    exact hn

/-- An invocation that is not over may move. -/
theorem advances_flies {flight : Flight} (h : ¬ s.Over nonce) :
    s.Advances (s.flies nonce flight) := by
  constructor
  · rintro n ⟨hout, hgone⟩
    have hn : n ≠ nonce := by
      rintro rfl
      exact h (.inl ⟨hout, hgone⟩)
    exact ⟨by simpa [flies, Function.update_of_ne hn] using hout, hgone⟩
  · intro n permit reply hret
    have hn : n ≠ nonce := by
      rintro rfl
      exact h (.inr ⟨permit, reply, hret⟩)
    simpa [flies, Function.update_of_ne hn] using hret

end Workers

/-- **What an invocation reports is true of it.** -/
theorem Reports.attests (h : Reports s nonce permit o) : s.Attests nonce permit o := by
  cases h with
  | declines haborted hobs =>
    exact ⟨fun _ => .inl haborted, fun _ => haborted, fun hk => absurd hk hobs.kind,
      hobs.consistent⟩
  | abandons hinside hrow hobs =>
    obtain ⟨hkind, hstop⟩ := hobs.silent
    refine ⟨fun h => ?_, fun h => ?_, fun h => ?_, .of_unconfirmed hkind⟩
    · simp [hstop] at h
    · simp [hkind] at h
    · simp [hkind] at h
  | @concludes _ reply _ _ hreturned hrow hobs =>
    obtain ⟨hne, hrefused⟩ := hobs.says
    exact ⟨fun _ => .inr ⟨_, _, hreturned⟩, fun h => absurd h hne,
      fun h => ⟨reply, hreturned, hrefused h⟩, hobs.consistent⟩

theorem evidenceOf_supports (h : s.Attests nonce permit o) :
    ∀ e ∈ evidenceOf permit nonce o, s.Supports e.op := by
  intro e he
  simp only [evidenceOf, mem_append, mem_cons, not_mem_nil, or_false] at he
  obtain he | rfl | rfl := he
  · split_ifs at he with hstop
    · obtain rfl := mem_singleton.1 he
      exact h.stopped hstop
    · cases he
  · exact h
  · exact h

/-- **A reconciliation repeats what its row or its artifact says**, and
otherwise says nothing new. -/
theorem reconcileAttempt_supports {artifact : Option AttemptObservation} {t now : ℤ} {e : Evidence}
    (hw : a.WellFormed) (ha : a.claimID ≠ "" → s.Vouches a)
    (hx : ∀ o, artifact = some o → s.Attests a.claimID a.permitID o)
    (h : reconcileAttempt a artifact t now = some e) : s.Supports e.op := by
  unfold reconcileAttempt at h
  cases hs : a.state with
  | settled => simp [hs] at h
  | reserved =>
    simp only [hs] at h
    split_ifs at h
    obtain rfl := Option.some.inj h
    trivial
  | dispatching =>
    have hv := ha (hw.dispatching hs)
    simp only [hs] at h
    cases ho : a.observation with
    | some o =>
      simp only [ho] at h
      obtain rfl := Option.some.inj h
      exact hv.observed o ho
    | none =>
      simp only [ho] at h
      split at h
      · rename_i o hrecovered
        obtain rfl := Option.some.inj h
        split_ifs at hrecovered
        exact hx o hrecovered
      · split_ifs at h
        obtain rfl := Option.some.inj h
        -- an unheard claim is stopped if its row says so
        refine ⟨fun hstop => hv.stopped ?_, nofun, nofun, .of_quiet rfl⟩
        exact Option.isSome_iff_ne_none.1 hstop

/-! ## The invariant -/

/-- **Whatever is written of an invocation is true of it.** -/
structure Truthful (s : Workers) : Prop where
  entered : ∀ nonce kind permit, (s.flight nonce).entered = some (kind, permit) →
    nonce ≠ "" ∧ ∃ a, s.db.attempts.get? permit = some a ∧ a.claimID = nonce ∧ a.kind = kind
  rows : ∀ id a, s.db.attempts.get? id = some a → a.claimID ≠ "" → s.Vouches a
  reads : ∀ a ∈ s.reads, a.WellFormed ∧ (a.claimID ≠ "" → s.Vouches a)
  sent : ∀ e ∈ s.sent, s.Supports e.op
  artifacts : ∀ x ∈ s.artifacts, s.Attests x.claimID x.permitID x.observation

/-- One row replaced by one that is vouched for. -/
theorem vouches_of_replaces {db : DB} {id : String} {a' : Attempt}
    (h : db.attempts.Replaces db'.attempts id a a')
    (hrows : ∀ id a, db.attempts.get? id = some a → a.claimID ≠ "" → s.Vouches a)
    (hnew : a'.claimID ≠ "" → s.Vouches a') :
    ∀ id a, db'.attempts.get? id = some a → a.claimID ≠ "" → s.Vouches a := by
  intro k b hb
  by_cases hk : k = id
  · subst hk
    obtain rfl := Option.mem_unique h.get_self hb
    exact hnew
  · exact hrows k b (by rw [← h.get_ne hk]; exact hb)

/-- A true observation leaves a row that is vouched for. -/
theorem Workers.Vouches.observe {b : Attempt} (ha : s.Vouches a)
    (ho : s.Attests a.claimID a.permitID o) (hclaim : b.claimID = a.claimID)
    (hpermit : b.permitID = a.permitID) (hstop : b.stoppedAt = a.stopEvidence o)
    (hobs : b.observation = some o) : s.Vouches b := by
  constructor
  · intro hs
    rw [hclaim]
    rw [hstop, Attempt.stopEvidence] at hs
    split_ifs at hs with hlocal
    · exact ho.stopped hlocal
    · exact ha.stopped hs
  · intro o' ho'
    rw [hobs] at ho'
    obtain rfl := Option.some.inj ho'
    rw [hclaim, hpermit]
    exact ho

/-- **A true transaction leaves true rows.** -/
theorem Effect.vouches {db : DB} (hr : (ledger size).Reach db) (h : Effect size c db db' op)
    (hop : s.Supports op)
    (hrows : ∀ id a, db.attempts.get? id = some a → a.claimID ≠ "" → s.Vouches a) :
    ∀ id a, db'.attempts.get? id = some a → a.claimID ≠ "" → s.Vouches a := by
  -- a transaction that touches no attempt leaves its rows as they are
  have same : db'.attempts = db.attempts →
      ∀ id a, db'.attempts.get? id = some a → a.claimID ≠ "" → s.Vouches a := by
    intro heq
    rw [heq]
    exact hrows
  -- and one that adds a row adds an unclaimed one
  have adds : ∀ {b : Attempt}, db.attempts.Adds db'.attempts b → b.claimID = "" →
      ∀ id a, db'.attempts.get? id = some a → a.claimID ≠ "" → s.Vouches a := by
    intro b hadds hb id a ha hclaim
    obtain rfl | hne := eq_or_ne id b.permitID
    · obtain rfl := Option.mem_unique hadds.get_self ha
      exact absurd hb hclaim
    · exact hrows id a (by rw [← hadds.get_ne hne]; exact ha) hclaim
  cases h with
  | side h => exact same h.kept.2
  | created h => exact same (by rw [h.frame])
  | expired hframe => exact same (by rw [hframe])
  | reservedItem _ _ _ h => exact adds h.attempts (by rw [h.row]; rfl)
  | reservedRequest _ _ _ h =>
    refine adds h.attempts ?_
    rw [h.row, Reservation.requestRow]
    split <;> rfl
  | claimed h =>
    have hfree := (wellFormed_of_reach hr h.attempts.old).reserved h.reserved
    refine vouches_of_replaces h.attempts hrows fun _ => ⟨fun hs => ?_, fun o ho => ?_⟩
    · rw [h.row] at hs
      exact absurd hfree.2.2 hs
    · rw [h.row] at ho
      exact absurd (hfree.2.1.symm.trans ho) (by simp)
  | dispatched h =>
    refine vouches_of_replaces h.attempts hrows fun hclaim => ?_
    rw [h.row] at hclaim ⊢
    have hv := hrows _ _ h.attempts.old hclaim
    exact ⟨hv.stopped, hv.observed⟩
  | staged howned _ _ _ h =>
    refine vouches_of_replaces h hrows fun hclaim => ?_
    have hv := hrows _ _ h.old hclaim
    have hid := permitID_of_get? h.old
    exact hv.observe (howned ▸ hid ▸ hop) rfl rfl rfl rfl
  | settled howned _ _ _ h =>
    refine vouches_of_replaces h.attempts hrows fun hclaim => ?_
    rw [h.row] at hclaim ⊢
    have hv := hrows _ _ h.attempts.old hclaim
    have hid := permitID_of_get? h.attempts.old
    exact hv.observe (howned ▸ hid ▸ hop) rfl rfl rfl rfl
  | lapsed _ hfree h =>
    refine vouches_of_replaces h.attempts hrows fun hclaim => ?_
    rw [h.row] at hclaim
    exact absurd hfree hclaim
  | stopped howned hclaimed _ h =>
    have hv := hrows _ _ h.old hclaimed
    exact vouches_of_replaces h hrows fun _ => ⟨fun _ => howned ▸ hop, hv.observed⟩

namespace Truthful

/-- **A true transaction keeps everything written true.** -/
theorem commits (h : Truthful s) (hr : (ledger size).Reach s.db) (hop : s.Supports op)
    (hexec : op.exec size c s.db = .ok db') : Truthful (s.commits db') := by
  have hadv : s.Advances (s.commits db') := Workers.advances_of_eq rfl rfl
  refine ⟨?_, ?_, ?_, ?_, ?_⟩
  · intro nonce kind permit hin
    obtain ⟨hne, a, ha, hclaim, hkind⟩ := h.entered nonce kind permit hin
    obtain ⟨a', ha', hlater⟩ := later_of_run hr (.single ⟨op, c, hexec⟩) ha
    have hsame : a'.kind = a.kind := by rw [hlater.reservation]
    exact ⟨hne, a', ha', (hlater.claimID (hclaim ▸ hne)).trans hclaim, hsame.trans hkind⟩
  · intro id a ha hclaim
    exact hadv.vouches ((Op.exec_effect hexec).vouches hr hop h.rows id a ha hclaim)
  · exact fun a ha => ⟨(h.reads a ha).1, fun hc => hadv.vouches ((h.reads a ha).2 hc)⟩
  · exact fun e he => hadv.supports (h.sent e he)
  · exact fun x hx => hadv.attests (h.artifacts x hx)

/-- Invocations move, and what is added is true. -/
theorem extend (h : Truthful s) (hadv : s.Advances s') (hdb : s'.db = s.db)
    (hin : ∀ nonce kind permit, (s'.flight nonce).entered = some (kind, permit) →
      nonce ≠ "" ∧ ∃ a, s.db.attempts.get? permit = some a ∧ a.claimID = nonce ∧ a.kind = kind)
    (hreads : ∀ a ∈ s'.reads, a ∈ s.reads ∨ a.WellFormed ∧ (a.claimID ≠ "" → s.Vouches a))
    (hsent : ∀ e ∈ s'.sent, e ∈ s.sent ∨ s.Supports e.op)
    (hart : ∀ x ∈ s'.artifacts, x ∈ s.artifacts ∨ s.Attests x.claimID x.permitID x.observation) :
    Truthful s' := by
  refine ⟨?_, ?_, ?_, ?_, ?_⟩
  · rw [hdb]
    exact hin
  · rw [hdb]
    exact fun id a ha hc => hadv.vouches (h.rows id a ha hc)
  · intro a ha
    obtain ⟨hw, hv⟩ := (hreads a ha).elim (h.reads a) id
    exact ⟨hw, fun hc => hadv.vouches (hv hc)⟩
  · exact fun e he => hadv.supports ((hsent e he).elim (h.sent e) id)
  · exact fun x hx => hadv.attests ((hart x hx).elim (h.artifacts x) id)

/-- One invocation moves. -/
theorem flies (h : Truthful s) {flight : Flight} (hadv : s.Advances (s.flies nonce flight))
    (hin : ∀ kind permit, flight.entered = some (kind, permit) →
      nonce ≠ "" ∧ ∃ a, s.db.attempts.get? permit = some a ∧ a.claimID = nonce ∧ a.kind = kind) :
    Truthful (s.flies nonce flight) := by
  refine h.extend hadv rfl ?_ (fun _ => .inl) (fun _ => .inl)
    (fun _ => .inl)
  intro n kind permit hflight
  by_cases hn : n = nonce
  · subst hn
    simp only [Workers.flies, Function.update_self] at hflight
    exact hin kind permit hflight
  · simp only [Workers.flies, Function.update_of_ne hn] at hflight
    exact h.entered n kind permit hflight

/-- True evidence may be sent. -/
theorem sends (h : Truthful s) {evidence : List Evidence}
    (htrue : ∀ e ∈ evidence, s.Supports e.op) : Truthful (s.sends evidence) := by
  refine h.extend (Workers.advances_of_eq rfl rfl) rfl h.entered (fun _ => .inl) ?_ (fun _ => .inl)
  intro e he
  exact (mem_append.1 he).symm.imp_right (htrue e)

end Truthful

theorem offers_of_calls {j : Joint} (h : op.calls = true) : j.Offers op := by
  cases op with
  | claimAttempt | markDispatch => trivial
  | _ => cases h

theorem plain_of_calls (h : op.calls = true) : op.testifies = false := by
  cases op with
  | claimAttempt | markDispatch => rfl
  | _ => cases h

/-- **The invocations are those of the callers.** -/
theorem workers_callers : (workers H size).Simulates (callers size) Workers.callers := by
  refine ⟨fun s h => h.1, ?_⟩
  intro s s' _ hs
  cases hs with
  | exec op c _ _ hexec => exact .inr (.inr ⟨op, c, _, hexec, rfl⟩)
  | call h => exact .inr (.inl h)
  | @deliver e c db' _ hexec => exact .inr (.inr ⟨e.op, c, _, hexec, rfl⟩)
  | _ => exact .inl rfl

/-- **The pool and the ledger are those of the joint system.** -/
theorem workers_joint : (workers H size).Simulates (joint H size) Workers.joint := by
  refine ⟨fun s h => h.2.1, ?_⟩
  intro s s' _ hs
  cases hs with
  | act t act hlater hact => exact .inr (.act t act hlater hact)
  | read hrow => exact .inr (.read hrow)
  | exec op c hoffer _ hexec => exact .inr (.exec op c hoffer hexec)
  | @call callers' h =>
    obtain hsame | ⟨op, c, hcalls, hexec⟩ := @CallerStep.exec size _ _ h
    · exact .inl (by simp only [Workers.joint, Workers.db, hsame])
    · exact .inr (.exec op c (offers_of_calls hcalls) hexec)
  | @deliver e c db' _ hexec =>
    refine .inr (.exec e.op c ?_ hexec)
    cases e <;> trivial
  | _ => exact .inl rfl

/-- The database is the ledger's. -/
theorem workers_ledger (hr : (workers H size).Reach s) : (ledger size).Reach s.db :=
  callers_simulates.reach (workers_callers.reach hr)

/-- **Every step writes the truth or nothing.** -/
theorem WorkerStep.writes (ht : Truthful s) (h : WorkerStep H size s s') :
    s'.db = s.db ∨ ∃ op c, s.Supports op ∧ op.exec size c s.db = .ok s'.db := by
  cases h with
  | exec op c _ hplain hexec => exact .inr ⟨op, c, Workers.supports_of_plain hplain, hexec⟩
  | call h =>
    refine h.exec.imp_right fun ⟨op, c, hcalls, hexec⟩ => ⟨op, c, ?_, hexec⟩
    exact Workers.supports_of_plain (plain_of_calls hcalls)
  | deliver c hsent hexec => exact .inr ⟨_, c, ht.sent _ hsent, hexec⟩
  | _ => exact .inl rfl

/-- An invocation inside is not over. -/
theorem not_over_of_inside {kind : Kind} (h : s.flight nonce = .inside kind permit) :
    ¬ s.Over nonce := by
  rintro (⟨hout, -⟩ | ⟨p, reply, hret⟩)
  · rw [h] at hout
    cases hout
  · rw [h] at hret
    cases hret

variable (hr : (workers H size).Reach s)
include hr

/-- **No step undoes the end of an invocation.** -/
theorem WorkerStep.advances (h : WorkerStep H size s s') : s.Advances s' := by
  cases h with
  | call h =>
    refine ⟨?_, fun _ _ _ h => h⟩
    rintro n ⟨hout, hgone⟩
    exact ⟨hout, h.gone (workers_ledger hr) hgone⟩
  | enter hphase hout =>
    refine Workers.advances_flies ?_
    rintro (⟨-, hgone⟩ | ⟨p, reply, hret⟩)
    · rw [hphase] at hgone
      cases hgone
    · rw [hout] at hret
      cases hret
  | «return» hinside => exact Workers.advances_flies (not_over_of_inside hinside)
  | _ => exact Workers.advances_of_eq rfl rfl

/-- **One step keeps everything written true.** -/
theorem Truthful.step (h : Truthful s) (hs : WorkerStep H size s s') : Truthful s' := by
  have hledger := workers_ledger hr
  have hadv := hs.advances hr
  cases hs with
  | act =>
    exact h.extend (Workers.advances_of_eq rfl rfl) rfl h.entered (fun _ => .inl) (fun _ => .inl)
      (fun _ => .inl)
  | @read id a hrow =>
    refine h.extend (Workers.advances_of_eq rfl rfl) rfl h.entered ?_ (fun _ => .inl)
      (fun _ => .inl)
    rintro b (_ | ⟨_, hb⟩)
    · exact .inr ⟨wellFormed_of_reach hledger hrow, h.rows id a hrow⟩
    · exact .inl hb
  | exec op c _ hplain hexec => exact h.commits hledger (Workers.supports_of_plain hplain) hexec
  | @call callers' hcall =>
    -- the transaction first, then the caller's phase
    have hmid : Truthful (s.commits callers'.db) := by
      obtain hsame | ⟨op, c, hcalls, hexec⟩ := @CallerStep.exec size _ _ hcall
      · rw [hsame]
        exact h
      · exact h.commits hledger (Workers.supports_of_plain (plain_of_calls hcalls)) hexec
    refine hmid.extend ⟨?_, fun _ _ _ h => h⟩ rfl hmid.entered (fun _ => .inl) (fun _ => .inl)
      (fun _ => .inl)
    exact hadv.aborted
  | @enter nonce permit a hphase hout hrow =>
    obtain ⟨hne, b, hb, hclaim⟩ := owner_of_dispatched (workers_callers.reach hr) hphase
    obtain rfl := Option.mem_unique hb hrow
    refine h.flies hadv ?_
    rintro kind p ⟨⟩
    exact ⟨hne, b, hb, hclaim, rfl⟩
  | @«return» nonce permit reply hinside =>
    refine h.flies hadv ?_
    rintro kind p ⟨⟩
    exact h.entered nonce reply.kind permit (by rw [hinside]; rfl)
  | stop time haborted =>
    refine h.sends fun e he => ?_
    obtain rfl := mem_singleton.1 he
    exact .inl haborted
  | report hreports => exact h.sends (evidenceOf_supports hreports.attests)
  | put hreturned hrow hconcludes =>
    refine h.extend (Workers.advances_of_eq rfl rfl) rfl h.entered (fun _ => .inl)
      (fun _ => .inl) ?_
    rintro x (_ | ⟨_, hx⟩)
    · exact .inr (Reports.concludes hreturned hrow hconcludes).attests
    · exact .inl hx
  | @reconcile a e t now hread hwrites =>
    refine h.sends fun e' he' => ?_
    obtain rfl := mem_singleton.1 he'
    exact reconcileAttempt_supports (h.reads a hread).1 (h.reads a hread).2
      (fun o ho => by cases ho) hwrites
  | @recover a x e t now hread hstored hdecodes hwrites =>
    refine h.sends fun e' he' => ?_
    obtain rfl := mem_singleton.1 he'
    refine reconcileAttempt_supports (h.reads a hread).1 (h.reads a hread).2 ?_ hwrites
    rintro o ⟨⟩
    have hx := h.artifacts x hstored
    rw [hdecodes.2.1, hdecodes.2.2.1] at hx
    exact hx
  | deliver c hsent hexec => exact h.commits hledger (h.sent _ hsent) hexec

theorem truthful_of_reach : Truthful s := by
  refine hr.invariant (P := Truthful) ?_ fun s s' hr ih hs => ih.step hr hs
  rintro s ⟨⟨hdb, -⟩, ⟨-, -, hreads⟩, hout, hsent, hart⟩
  have hreads : s.reads = [] := hreads
  refine ⟨?_, ?_, ?_, ?_, ?_⟩
  · intro nonce kind permit hin
    rw [hout] at hin
    cases hin
  · intro id a ha
    rw [Workers.db, hdb] at ha
    cases ha
  all_goals simp [hreads, hsent, hart]

end HardenLlm.Batch
