import HardenLlm.Batch.Rows
/-!
# Settlement agreement

Four transactions race to say how an attempt ended, and any number of
actors may call them with whatever they believe. The row decides: the
first observation stored is the one every later call agrees with or is
refused by. Two things about it are weaker than they look. A settlement
may store its own copy of a staged observation, which agrees with it only
at storage precision; and until a row is settled its stop time follows the
last evidence given, so it is kept only from settlement on.
-/

namespace HardenLlm.Batch

variable {size : AttemptObservation → ℕ} {db db' : DB} {id : String} {a r : Attempt}

/-- **A call that returns a settlement**: `SettleAttempt`, its read-back
after a lost acknowledgement, or `ExpireReservation`. -/
inductive SettleCall (size : AttemptObservation → ℕ) (db : DB) (id : String) :
    Attempt → DB → Prop
  | settle {nonce : String} {o : AttemptObservation} {c : Clock} {r : Attempt} {db' : DB}
      (h : settleAttempt size db id nonce o c = .ok (r, db')) : SettleCall size db id r db'
  | confirm {nonce : String} {o : AttemptObservation} {r : Attempt}
      (h : confirmSettlement db id nonce o = .ok r) : SettleCall size db id r db
  | expire {c : Clock} {r : Attempt} {db' : DB} (h : expireReservation db id c = .ok (r, db')) :
      SettleCall size db id r db'

/-- A settling call is at most one step of the ledger. -/
theorem SettleCall.run (h : SettleCall size db id r db') : (ledger size).Run db db' := by
  cases h with
  | @settle nonce o c _ _ h =>
    exact .single ⟨.settleAttempt id nonce o, c, by simp [Op.exec, h, Functor.map, Except.map]⟩
  | confirm => exact .refl _
  | @expire c _ _ h =>
    exact .single ⟨.expireReservation id, c, by simp [Op.exec, h, Functor.map, Except.map]⟩

/-- **A settling call returns the stored row**, and that row is settled. -/
theorem SettleCall.returns (h : SettleCall size db id r db') :
    db'.attempts.get? id = some r ∧ r.state = .settled := by
  cases h with
  | settle h =>
    obtain ⟨a, ha, -, -, -, -, -, ⟨hs, -, rfl, rfl⟩ | ⟨-, -, h⟩⟩ := settleAttempt_commits h
    · exact ⟨ha, hs⟩
    · exact ⟨h.attempts.get_self, by rw [h.row]; rfl⟩
  | confirm h =>
    obtain ⟨ha, hs, -⟩ := confirmSettlement_eq_ok h
    exact ⟨ha, hs⟩
  | expire h =>
    obtain ⟨a, ha, ⟨hs, rfl, rfl⟩ | ⟨-, -, -, h⟩⟩ := expireReservation_commits h
    · exact ⟨ha, hs⟩
    · exact ⟨h.attempts.get_self, by rw [h.row]; rfl⟩

/-- **Settlement agreement.** Along any run of the ledger a stored
observation is kept up to storage precision and its stop evidence, settled
is absorbing, stop evidence is never withdrawn and its time is fixed once
the row is settled, the revision never falls and rises strictly with stop
evidence on a settled row. And a call that returns a settlement at the end
of the run returns the stored observation, the same one. -/
theorem settlement_agreement (hr : (ledger size).Reach db) (h : (ledger size).Run db db')
    (ha : db.attempts.get? id = some a) :
    ∃ a', db'.attempts.get? id = some a'
      ∧ (∀ o, a.observation = some o →
          ∃ o', a'.observation = some o' ∧ sameTerminalObservation o o')
      ∧ (a.state = .settled → a'.state = .settled)
      ∧ (a.stoppedAt ≠ none → a'.stoppedAt ≠ none)
      ∧ (a.state = .settled → a.stoppedAt ≠ none → a'.stoppedAt = a.stoppedAt)
      ∧ a.settlementRevision ≤ a'.settlementRevision
      ∧ (a.state = .settled → a.stoppedAt = none → a'.stoppedAt ≠ none →
          a.settlementRevision < a'.settlementRevision)
      ∧ ∀ r db'', SettleCall size db' id r db'' →
          ∃ o'', db''.attempts.get? id = some r ∧ r.observation = some o''
            ∧ ∀ o, a.observation = some o → sameTerminalObservation o o'' := by
  obtain ⟨a', ha', hl⟩ := later_of_run hr h ha
  refine ⟨a', ha', hl.observation, fun hs => (hl.absorbing hs).1, hl.stopKept, hl.stopFixed,
    hl.revision, hl.stopRevised, ?_⟩
  intro r db'' hcall
  obtain ⟨hstored, hsettled⟩ := hcall.returns
  -- the returned row is a later version of the one we started from
  have hrun : (ledger size).Run db db'' := h.trans hcall.run
  obtain ⟨b, hb, hlb⟩ := later_of_run hr hrun ha
  rw [hstored] at hb
  cases hb
  have hsome := ((wellFormed_of_reach (hr.run hrun) hstored).settled hsettled).1
  obtain ⟨o'', ho''⟩ := Option.ne_none_iff_exists'.1 hsome
  refine ⟨o'', hstored, ho'', fun o ho => ?_⟩
  obtain ⟨o₁, ho₁, hsame⟩ := hlb.observation o ho
  rw [ho''] at ho₁
  cases ho₁
  exact hsame

open Sample

/-- **The stored copy and the stop time can both be rewritten** by the
settlement of a staged and stopped attempt: here it stores an observation
one nanosecond later than the staged one, and dates the stop back to it. -/
theorem settlement_rewrites_stop_and_precision :
    ∃ db db' a a' o o', (ledger Sample.size).Reach db ∧ (ledger Sample.size).Run db db'
      ∧ db.attempts.get? permit = some a ∧ db'.attempts.get? permit = some a'
      ∧ a.observation = some o ∧ a'.observation = some o'
      ∧ { o' with localStopped := o.localStopped } ≠ o
      ∧ a.stoppedAt = some (1004 * second) ∧ a'.stoppedAt = some (1003 * second) := by
  have h : Leads Sample.size
      (dispatched ++ [(.stageAttempt permit nonce (failure 1 false), clock 1003),
          (.markLocalStop permit nonce (1004 * second), clock 1004)]) .empty
      fun db => Leads Sample.size
        [(.settleAttempt permit nonce (failure 2 true), clock 1004)] db
        fun db' => ∃ a ∈ db.attempts.get? permit, ∃ a' ∈ db'.attempts.get? permit,
          ∃ o ∈ a.observation, ∃ o' ∈ a'.observation,
            { o' with localStopped := o.localStopped } ≠ o
            ∧ a.stoppedAt = some (1004 * second) ∧ a'.stoppedAt = some (1003 * second) := by
    decide +kernel
  obtain ⟨db, hreach, db', hexec, a, ha, a', ha', o, ho, o', ho', hne⟩ := h.reach
  exact ⟨db, db', a, a', o, o', hreach, run_of_execAll hexec, ha, ha', ho, ho', hne⟩

/-- The agreement at work: from the dispatched sample to its settlement. -/
theorem settlement_agreement_sample :
    ∃ (db db' : DB) (a a' : Attempt), (ledger Sample.size).Reach db ∧ db.attempts.get? permit = some a
      ∧ a.stoppedAt = none ∧ db'.attempts.get? permit = some a'
      ∧ a'.observation = some (failure 1 true)
      ∧ a.settlementRevision ≤ a'.settlementRevision := by
  have h : Leads Sample.size
      (dispatched ++ [(.stageAttempt permit nonce (failure 1 false), clock 1003)])
      .empty
      fun db => Leads Sample.size
        [(.settleAttempt permit nonce (failure 1 true), clock 1004)] db
        fun db' => ∃ a ∈ db.attempts.get? permit, ∃ a' ∈ db'.attempts.get? permit,
          a.stoppedAt = none ∧ a'.observation = some (failure 1 true) := by
    decide +kernel
  obtain ⟨db, hreach, db', hexec, a, ha, a', ha', hst, ho⟩ := h.reach
  obtain ⟨b, hb, -, -, -, -, hrev, -⟩ :=
    settlement_agreement hreach (run_of_execAll hexec) ha
  rw [Option.mem_def.1 ha'] at hb
  cases hb
  exact ⟨db, db', a, a', hreach, ha, hst, ha', ho, hrev⟩

end HardenLlm.Batch
