import HardenLlm.Batch.Budget
import HardenLlm.Batch.Containment
/-!
# What is replayed

An item goes back to the queue when its permit is released as never
dispatched or as rejected within its budget. Such evidence is true of the
invocation it names, whoever wrote it and however late it arrived: the
invocation gave up outside the provider, or the provider refused its call
before any output. A permit that was never claimed has no invocation.
-/

namespace HardenLlm.Batch

open Option

variable {H : Hashes} {size : AttemptObservation → ℕ} {s s' s'' : Workers} {db db' : DB} {op : Op}
  {c : Clock} {ref : Ref} {i i' : ItemRow} {p : String} {a : Attempt}

/-! ## What returns an item -/

/-- **The release that returned an item**: the claim's own settlement as
refused or never sent, or the lapse of a permit nobody claimed. -/
inductive ReturnedBy (db db' : DB) (p : String) : Op → Prop
  | refused {o : AttemptObservation} {a : Attempt} (row : db.attempts.get? p = some a)
      (kind : a.kind = .job) (rejected : o.outcome.kind = .rejected) :
      ReturnedBy db db' p (.settleAttempt p a.claimID o)
  | unsent {o : AttemptObservation} {a : Attempt} (row : db.attempts.get? p = some a)
      (claimed : a.state = .dispatching) (kind : o.outcome.kind = .neverDispatched) :
      ReturnedBy db db' p (.settleAttempt p a.claimID o)
  | lapsed {a' : Attempt} (row : db'.attempts.get? p = some a') (settled : a'.state = .settled)
      (unclaimed : a'.claimID = "") : ReturnedBy db db' p (.expireReservation p)

/-- A release that leaves an item idle is of one of two kinds, or a
lapse. -/
theorem ReleasedBy.returns {o : AttemptObservation} {a' : Attempt} {deadline : ℤ}
    (h : SettleCommits db p c o a a' db') (hby : ReleasedBy c p a o op) (hkind : a.kind = .job)
    (hidle : (i.settledBy a o deadline c).Idle) : ReturnedBy db db' p op := by
  have hverdict := (itemVerdict_open hidle.1).1
  cases hby with
  | settled howned htaken =>
    have hclaimed : a.state = .dispatching := by
      have := h.unsettled
      cases hs : a.state <;> simp_all
    subst howned
    obtain ⟨hrej, -⟩ | hnever := hverdict
    · exact .refused h.attempts.old hkind hrej
    · exact .unsent h.attempts.old hclaimed hnever
  | lapsed _ hunclaimed =>
    exact .lapsed h.attempts.get_self (by rw [h.row]; rfl) (by rw [h.row]; exact hunclaimed)

/-- **A held item becomes idle only by a release of its permit.** -/
theorem Effect.returns (h : Effect size c db db' op) (hi : db.items.get? ref = some i)
    (hp : i.currentPermit = some p) (hi' : db'.items.get? ref = some i') (hidle : i'.Idle) :
    ReturnedBy db db' p op := by
  have hheld : i'.currentPermit ≠ some p := by simp [hidle.2]
  cases h.itemEffect ref with
  | same h =>
    obtain rfl := Option.some.inj (hi.symm.trans (h.symm.trans hi'))
    exact absurd hp hheld
  | created _ hnone => simp [hi] at hnone
  | expired hb _ hb' | dispatched hb _ _ hb' =>
    obtain rfl := mem_unique hb hi
    obtain rfl := mem_unique hb' hi'
    exact absurd hp hheld
  | reserved _ href hres =>
    subst href
    obtain rfl := mem_unique hres.items.old hi
    simp [hres.free] at hp
  | released hres hby hk href _ hcur _ hrep =>
    subst href
    obtain rfl := mem_unique hrep.old hi
    obtain rfl := mem_unique hrep.get_self hi'
    have hid : _ = p := mem_unique hcur hp
    have hkey := permitID_of_get? hres.attempts.old
    subst hid
    subst hkey
    exact hby.returns hres hk hidle

/-! ## The permits behind it -/

section

variable (hr : (workers H size).Reach s) (h : (workers H size).Run s s')
include hr h

/-- The database of a run of the workers is a run of the ledger. -/
theorem ledger_of_workers : (ledger size).Run s.db s'.db :=
  callers_simulates.run (workers_callers.reach hr) (workers_callers.run hr h)

/-- What is over stays over along a run. -/
theorem aborted_of_run {nonce : String} (ha : s.Aborted nonce) : s'.Aborted nonce := by
  refine System.Run.stable (P := fun s => s.Aborted nonce) ?_ hr ha h
  intro t t' ht ha hs
  have hover := hs.advances ht
  exact hover.aborted nonce ha

variable (ha : s.db.attempts.get? p = some a)
include ha

/-- Who entered for a permit is named by its row, once that is later. -/
theorem claimant_of_entered {nonce : String} {kind : Kind}
    (hin : (s'.flight nonce).entered = some (kind, p)) :
    nonce ≠ "" ∧ ∃ b, a.Later b ∧ b.claimID = nonce := by
  obtain ⟨hne, b, hb, hb', -⟩ := (truthful_of_reach (hr.run h)).entered nonce kind p hin
  obtain ⟨b', hb'', hlater⟩ := later_of_run (workers_ledger hr) (ledger_of_workers hr h) ha
  obtain rfl := mem_unique hb hb''
  exact ⟨hne, b, hlater, hb'⟩

/-- **A permit whose one claimant gave up outside is never entered.** -/
theorem unentered_of_aborted (hclaim : a.claimID ≠ "") (hab : s.Aborted a.claimID) :
    ¬ s'.Entered p := by
  rintro ⟨nonce, kind, hin⟩
  obtain ⟨-, b, hlater, rfl⟩ := claimant_of_entered hr h ha hin
  have hout := (aborted_of_run hr h hab).1
  rw [hlater.claimID hclaim, hout] at hin
  cases hin

/-- **A permit that settled unclaimed is never entered.** -/
theorem unentered_of_lapsed (hsettled : a.state = .settled) (hclaim : a.claimID = "") :
    ¬ s'.Entered p := by
  rintro ⟨nonce, kind, hin⟩
  obtain ⟨hne, b, hlater, rfl⟩ := claimant_of_entered hr h ha hin
  exact hne ((hlater.absorbing hsettled).2.2.1.trans hclaim)

end

/-- **Only unsent or refused work is replayed.** In any run of the workers,
however evidence is lost, delayed or repeated, an item that goes from its
permit back to the queue was never sent with it, neither before nor later,
or the provider refused the call: it answered with a status, not by a
cancellation or a deadline, and before any output. -/
theorem replays_only_unsent_or_refused (hr : (workers H size).Reach s)
    (hs : (workers H size).step s s') (hi : s.db.items.get? ref = some i)
    (hp : i.currentPermit = some p) (hi' : s'.db.items.get? ref = some i')
    (hback : i'.state = .queued ∨ i'.state = .waiting) :
    (∀ s'', (workers H size).Run s' s'' → ¬ s''.Entered p)
      ∨ ∃ nonce result err, s'.flight nonce = .returned p (.job result (some err))
        ∧ Refusal result err := by
  have hr' := System.Reach.step hr hs
  have htrue := truthful_of_reach hr
  have hinactive : i'.state ≠ .active := by rintro h; simp [h] at hback
  have hfree : i'.currentPermit = none := by
    by_contra hne
    exact hinactive ((active_iff_permit (workers_ledger hr') hi').2 hne)
  have hidle : i'.Idle := by
    refine ⟨?_, hfree⟩
    obtain h | h := hback <;> simp [h, ItemState.open]
  obtain hsame | ⟨op, c, hsupports, hexec⟩ := hs.writes htrue
  · rw [hsame, hi] at hi'
    cases hi'
    rw [hp] at hfree
    cases hfree
  cases (Op.exec_effect hexec).returns hi hp hi' hidle with
  | @refused o a hrow hkind hrejected =>
    obtain ⟨reply, hflight, hrefused⟩ := hsupports.refused hrejected
    obtain ⟨-, b, hb, -, hbk⟩ := htrue.entered a.claimID reply.kind p (by rw [hflight]; rfl)
    obtain rfl := mem_unique hb hrow
    have hcall := hrefused (hbk.symm.trans hkind)
    cases reply with
    | ordinary => cases hcall
    | job result err =>
      cases err with
      | none => cases hcall
      | some err => exact .inr ⟨_, result, err, (hs.advances hr).returned _ _ _ hflight, hcall⟩
  | unsent hrow hclaimed hnever =>
    refine .inl fun s'' hrun => ?_
    have hclaim := (wellFormed_of_reach (workers_ledger hr) hrow).dispatching hclaimed
    exact unentered_of_aborted hr ((System.Run.single hs).trans hrun) hrow hclaim
      (hsupports.unsent hnever)
  | lapsed hrow hsettled hunclaimed =>
    exact .inl fun s'' hrun => unentered_of_lapsed hr' hrun hrow hsettled hunclaimed

/-! ## A refused call, replayed -/

namespace Sample

/-- The provider answers 429 before any output. -/
def refusal : ExecutionError := { provider := some { status := 429, code := "rate_limit_exceeded" } }

/-- What follows it. -/
def aftermath : Aftermath :=
  { finished := 1003 * second, durationMS := 1000, encoded := false, enveloped := false
    stored := false }

/-- The observation `InvokeAttempt` makes of it. -/
def refused (a : Attempt) : AttemptObservation where
  outcome := returnedOutcome (enteredOutcome a stored (1002 * second) (1100 * second)) a.permitID
    (1100 * second) {} (some refusal) aftermath
  nativeEntered := true
  localStopped := true
  observedAt := 1003 * second

/-- Its settlement returns the sample item to the queue. -/
def requeues (a : Attempt) (db : DB) : Bool :=
  match settleAttempt Sample.size db grant.permitID nonce (refused a) (clock 1004) with
  | .error _ => false
  | .ok (_, db') =>
    (db.items.get? Sample.ref).any (fun i => i.currentPermit = some grant.permitID)
      && (db'.items.get? Sample.ref).any (fun i => i.state = .waiting)

end Sample

/-- The sample invocation is refused, reports it, and its item waits
again. -/
theorem replays_only_unsent_or_refused_sample :
    ∃ s s' i', (workers Sample.hashes Sample.size).Reach s
      ∧ (workers Sample.hashes Sample.size).step s s'
      ∧ s'.db.items.get? Sample.ref = some i' ∧ i'.state = .waiting
      ∧ ((∀ s'', (workers Sample.hashes Sample.size).Run s' s'' →
            ¬ s''.Entered Sample.grant.permitID)
          ∨ ∃ nonce result err,
            s'.flight nonce = .returned Sample.grant.permitID (.job result (some err))
              ∧ Refusal result err) := by
  have hlead : Leads Sample.size Sample.granted .empty fun db =>
      (Sample.entering db).any (fun e => Sample.requeues e.1 e.2) = true := by
    decide +kernel
  obtain ⟨db, hexec, hdb⟩ := hlead
  obtain ⟨⟨a, db₁⟩, hin, hreq⟩ := (any_eq_true _ _).1 hdb
  obtain ⟨s, hr, -, hs, hflight, hrow, -⟩ := Sample.entering_run hexec hin
  subst hs
  simp only [Sample.requeues] at hreq
  split at hreq
  · cases hreq
  rename_i b db₂ hsettle
  simp only [Bool.and_eq_true] at hreq
  obtain ⟨i, hi, hheld⟩ := (any_eq_true _ _).1 hreq.1
  obtain ⟨i', hi', hwaits⟩ := (any_eq_true _ _).1 hreq.2
  have h₁ := System.Reach.step hr
    (@WorkerStep.return _ _ _ _ _ (.job {} (some Sample.refusal)) hflight)
  have h₂ := System.Reach.step h₁
    (.report (.concludes (Function.update_self ..) hrow
      (.job Sample.stored (1002 * second) (1100 * second) (1003 * second) Sample.aftermath)))
  obtain ⟨t, ht, htdb, hsent⟩ : ∃ t, (workers Sample.hashes Sample.size).Reach t ∧ t.db = s.db
      ∧ .settle Sample.grant.permitID Sample.nonce (Sample.refused a) ∈ t.sent :=
    ⟨_, h₂, rfl, by simp [Workers.sends, evidenceOf, Sample.refused]⟩
  rw [← htdb] at hsettle hi
  have hstep : (workers Sample.hashes Sample.size).step t (t.commits db₂) :=
    .deliver (Sample.clock 1004) hsent (map_snd_of_eq_ok hsettle)
  refine ⟨t, _, i', ht, hstep, hi', by simpa using hwaits, ?_⟩
  exact replays_only_unsent_or_refused ht hstep hi (by simpa using hheld) hi'
    (.inr (by simpa using hwaits))

end HardenLlm.Batch
