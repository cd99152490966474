import HardenLlm.Batch.Model.Callers
import HardenLlm.Batch.Owners
/-!
# At most one authorization for a permit

A success, acknowledged or read back, is backed by the permit's row: it is
the nonce's own claim, unobserved and unstopped, and its owner is still
waiting. The row names one nonce for ever, so every success of a permit is
that nonce's, and an invocation dispatches once. What ends a permit, an
observation, a stop, a settlement or a closed waiter, is never undone, so
nothing succeeds afterwards.
-/

namespace HardenLlm.Batch

open Function List

variable {size : AttemptObservation → ℕ} {db db' : DB} {c : Clock} {id permit nonce : String}

/-! ## What ends a permit -/

/-- The permit's row carries an observation, a local-stop time or the state
`settled`, or its waiter was closed. -/
def Ended (db : DB) (permit : String) : Prop :=
  ∃ a, db.attempts.get? permit = some a
    ∧ (a.observation ≠ none ∨ a.stoppedAt ≠ none ∨ a.state = .settled
      ∨ (a.kind = .ordinary ∧ ∃ w, db.waiters.get? a.requestID = some w ∧ w.closedAt ≠ none))

/-- **What has ended stays ended.** -/
theorem Ended.step (hr : (ledger size).Reach db) (h : (ledger size).step db db')
    (he : Ended db permit) : Ended db' permit := by
  obtain ⟨a, ha, hend⟩ := he
  obtain ⟨a', ha', hlater⟩ := later_of_run hr (.single h) ha
  obtain ⟨op, c, hexec⟩ := h
  refine ⟨a', ha', ?_⟩
  obtain hob | hst | hset | ⟨hk, w, hw, hclosed⟩ := hend
  · obtain ⟨o, ho⟩ := Option.ne_none_iff_exists'.mp hob
    obtain ⟨o', ho', -⟩ := hlater.observation o ho
    exact .inl (by simp [ho'])
  · exact .inr (.inl (hlater.stopKept hst))
  · exact .inr (.inr (.inl (hlater.absorbing hset).1))
  · obtain ⟨w', hw', hwaiter⟩ := (Op.exec_effect hexec).waiterLater hw
    refine .inr (.inr (.inr ?_))
    rw [hlater.reservation]
    exact ⟨hk, w', hw', hwaiter.closed hclosed⟩

variable {a : Attempt}

/-- A row that its guards found live has not ended. -/
theorem not_ended {now : ℤ} (ha : db.attempts.get? permit = some a)
    (hob : a.observation = none) (hst : a.stoppedAt = none) (hset : a.state ≠ .settled)
    (howner : OwnerAdmits db a nonce now) : ¬ Ended db permit := by
  rintro ⟨b, hb, hend⟩
  obtain rfl := Option.mem_unique ha hb
  obtain h | h | h | ⟨hk, w, hw, hclosed⟩ := hend
  · exact h hob
  · exact h hst
  · exact hset h
  · obtain ⟨v, hv, -, -, -, hopen, -⟩ := howner hk
    obtain rfl := Option.mem_unique hw hv
    exact hclosed hopen

/-! ## What a success rests on -/

/-- **The row behind a success**: it is the nonce's claim, and nothing had
ended the permit. -/
structure Backs (db db' : DB) (permit nonce : String) : Prop where
  row : ∃ a, db'.attempts.get? permit = some a ∧ a.claimID = nonce
  nonce_ne : nonce ≠ ""
  live : ¬ Ended db permit

theorem claimAttempt_backs (hr : (ledger size).Reach db)
    (h : claimAttempt db permit nonce c = .ok (a, db')) : Backs db db' permit nonce := by
  obtain ⟨b, h⟩ := claimAttempt_commits h
  have hwf := (wellFormed_of_reach hr h.attempts.old).reserved h.reserved
  refine ⟨⟨a, h.attempts.get_self, by rw [h.row]; rfl⟩, validPermitID_ne_empty h.nonceValid, ?_⟩
  exact not_ended h.attempts.old hwf.2.1 hwf.2.2 (by simp [h.reserved]) h.owner

theorem markDispatch_backs (hr : (ledger size).Reach db)
    (h : markDispatch db permit nonce c = .ok (a, db')) : Backs db db' permit nonce := by
  obtain ⟨b, h⟩ := markDispatch_commits h
  have hclaim := (wellFormed_of_reach hr h.attempts.old).dispatching h.dispatching
  refine ⟨⟨a, h.attempts.get_self, by rw [h.row]; exact h.owned⟩, h.owned ▸ hclaim, ?_⟩
  exact not_ended h.attempts.old h.unobserved h.unstopped (by simp [h.dispatching]) h.owner

theorem confirmAttemptWrite_backs {accepts : Attempt → Prop} [DecidablePred accepts]
    (hr : (ledger size).Reach db) (h : confirmAttemptWrite db permit nonce accepts c = .ok a) :
    Backs db db permit nonce := by
  have h := confirmAttemptWrite_confirms h
  have hclaim := (wellFormed_of_reach hr h.read).dispatching h.dispatching
  refine ⟨⟨a, h.read, h.owned⟩, h.owned ▸ hclaim, ?_⟩
  exact not_ended h.read h.unobserved h.unstopped (by simp [h.dispatching]) h.owner

variable {s s' : Callers}

/-- A step that returns no success. -/
structure Quiet (s s' : Callers) (nonce : String) (ph : CallPhase) : Prop where
  phase : s'.phase = Function.update s.phase nonce ph
  log : s'.log = s.log
  early : ph.early → (s.phase nonce).early
  pending : ∀ permit, ph.pending permit → (s.phase nonce).pending permit
  undispatched : ∀ permit, ph ≠ .dispatched permit
  gone : s.phase nonce = .gone → ph = .gone

/-- A claim that returns success. -/
structure WinsClaim (s s' : Callers) (permit nonce : String) : Prop where
  phase : s'.phase = Function.update s.phase nonce (.claimed permit)
  log : s'.log = s.log ++ [.claim permit nonce]
  early : (s.phase nonce).early
  backs : Backs s.db s'.db permit nonce

/-- A dispatch that returns success. -/
structure WinsDispatch (s s' : Callers) (permit nonce : String) : Prop where
  phase : s'.phase = Function.update s.phase nonce (.dispatched permit)
  log : s'.log = s.log ++ [.dispatch permit nonce]
  pending : (s.phase nonce).pending permit
  backs : Backs s.db s'.db permit nonce

/-- **What one step of an invocation does.** -/
theorem CallerStep.cases (hr : (ledger size).Reach s.db) (h : CallerStep s s') :
    (∃ nonce ph, Quiet s s' nonce ph) ∨ (∃ permit nonce, WinsClaim s s' permit nonce)
      ∨ ∃ permit nonce, WinsDispatch s s' permit nonce := by
  cases h with
  | claim hidle hexec =>
    exact .inr (.inl ⟨_, _, rfl, rfl, by simp [hidle, CallPhase.early], claimAttempt_backs hr hexec⟩)
  | loseClaim _ hphase | retryClaim hphase =>
    exact .inl ⟨_, _, rfl, rfl, fun _ => by simp [hphase, CallPhase.early], fun _ h => h.elim,
      by simp, by simp [hphase]⟩
  | confirmClaim hphase hexec =>
    exact .inr (.inl ⟨_, _, rfl, rfl, by simp [hphase, CallPhase.early],
      confirmAttemptWrite_backs hr hexec⟩)
  | dispatch hphase hexec =>
    exact .inr (.inr ⟨_, _, rfl, rfl, by simp [hphase, CallPhase.pending],
      markDispatch_backs hr hexec⟩)
  | loseDispatch _ hphase | retryDispatch hphase =>
    exact .inl ⟨_, _, rfl, rfl, fun h => h.elim, fun p h => by rw [hphase]; exact h,
      by simp, by simp [hphase]⟩
  | confirmDispatch hphase hexec =>
    exact .inr (.inr ⟨_, _, rfl, rfl, by simp [hphase, CallPhase.pending],
      confirmAttemptWrite_backs hr hexec⟩)
  | leave nonce =>
    exact .inl ⟨nonce, .gone, rfl, rfl, fun h => h.elim, fun _ h => h.elim, by simp, fun _ => rfl⟩

/-- The transactions invocations call. -/
def Op.calls : Op → Bool
  | .claimAttempt _ _ | .markDispatch _ _ => true
  | _ => false

/-- **An invocation acts on the database by its claim and its dispatch.** -/
theorem CallerStep.exec (h : CallerStep s s') :
    s'.db = s.db ∨ ∃ (op : Op) (c : Clock), op.calls = true ∧ op.exec size c s.db = .ok s'.db := by
  have claimed : ∀ {permit nonce c a db'}, claimAttempt s.db permit nonce c = .ok (a, db') →
      ∃ (op : Op) (c : Clock), op.calls = true ∧ op.exec size c s.db = .ok db' :=
    fun {permit nonce c _ _} hexec => ⟨.claimAttempt permit nonce, c, rfl, map_snd_of_eq_ok hexec⟩
  have dispatched : ∀ {permit nonce c a db'}, markDispatch s.db permit nonce c = .ok (a, db') →
      ∃ (op : Op) (c : Clock), op.calls = true ∧ op.exec size c s.db = .ok db' :=
    fun {permit nonce c _ _} hexec => ⟨.markDispatch permit nonce, c, rfl, map_snd_of_eq_ok hexec⟩
  cases h with
  | claim _ hexec => exact .inr (claimed hexec)
  | loseClaim applied _ hexec =>
    cases applied with
    | false => exact .inl rfl
    | true => exact .inr (claimed hexec)
  | dispatch _ hexec => exact .inr (dispatched hexec)
  | loseDispatch applied _ hexec =>
    cases applied with
    | false => exact .inl rfl
    | true => exact .inr (dispatched hexec)
  | confirmClaim | retryClaim | confirmDispatch | retryDispatch | leave => exact .inl rfl

theorem CallerStep.ledgerStep (h : CallerStep s s') :
    s'.db = s.db ∨ (ledger size).step s.db s'.db :=
  h.exec.imp_right fun ⟨op, c, _, hexec⟩ => ⟨op, c, hexec⟩

theorem callers_simulates : (callers size).Simulates (ledger size) Callers.db := by
  refine ⟨fun s h => h.1, ?_⟩
  rintro s s' - (h | ⟨op, c, db', hexec, rfl⟩)
  · exact h.ledgerStep
  · exact .inr ⟨op, c, hexec⟩

/-! ## The invariant -/

/-- **Every success is the one nonce's the row names.** -/
structure Authorized (s : Callers) : Prop where
  claims : ∀ permit nonce, Success.claim permit nonce ∈ s.log →
    nonce ≠ "" ∧ ∃ a, s.db.attempts.get? permit = some a ∧ a.claimID = nonce
  dispatches : ∀ permit nonce, Success.dispatch permit nonce ∈ s.log →
    Success.claim permit nonce ∈ s.log
  fresh : ∀ nonce, (s.phase nonce).early → ∀ e ∈ s.log, e.nonce ≠ nonce
  pending : ∀ nonce permit, (s.phase nonce).pending permit →
    Success.claim permit nonce ∈ s.log ∧ Success.dispatch permit nonce ∉ s.log
  once : ∀ permit, s.log.countP (Success.dispatches permit) ≤ 1

namespace Authorized

variable (h : Authorized s)
include h

/-- One nonce owns a permit. -/
theorem owner {nonce' : String} (h₁ : Success.claim permit nonce ∈ s.log)
    (h₂ : Success.claim permit nonce' ∈ s.log) : nonce = nonce' := by
  obtain ⟨-, a, ha, rfl⟩ := h.claims permit nonce h₁
  obtain ⟨-, b, hb, rfl⟩ := h.claims permit nonce' h₂
  obtain rfl := Option.mem_unique ha hb
  rfl

variable (hr : (ledger size).Reach s.db)
include hr

/-- The row a claim is backed by names its nonce for ever. -/
theorem claims_kept
    (hstep : db' = s.db ∨ (ledger size).step s.db db')
    (hmem : Success.claim permit nonce ∈ s.log) :
    nonce ≠ "" ∧ ∃ a, db'.attempts.get? permit = some a ∧ a.claimID = nonce := by
  obtain ⟨hne, a, ha, hclaim⟩ := h.claims permit nonce hmem
  refine ⟨hne, ?_⟩
  obtain rfl | hstep := hstep
  · exact ⟨a, ha, hclaim⟩
  · obtain ⟨a', ha', hlater⟩ := later_of_run hr (.single hstep) ha
    exact ⟨a', ha', (hlater.claimID (hclaim ▸ hne)).trans hclaim⟩

variable (hstep : s'.db = s.db ∨ (ledger size).step s.db s'.db)
include hstep

theorem quiet {ph : CallPhase} (hq : Quiet s s' nonce ph) : Authorized s' := by
  refine ⟨?_, ?_, ?_, ?_, ?_⟩
  · intro p n hmem
    rw [hq.log] at hmem
    exact h.claims_kept hr hstep hmem
  · rw [hq.log]
    exact h.dispatches
  · intro n hearly
    rw [hq.log]
    rw [hq.phase, update_apply] at hearly
    split_ifs at hearly with hn
    · exact h.fresh n (hn ▸ hq.early hearly)
    · exact h.fresh n hearly
  · intro n p hpending
    rw [hq.log]
    rw [hq.phase, update_apply] at hpending
    split_ifs at hpending with hn
    · exact h.pending n p (hn ▸ hq.pending p hpending)
    · exact h.pending n p hpending
  · rw [hq.log]
    exact h.once

/-- A success is noted, and its invocation moves on. -/
theorem wins {e : Success} {ph : CallPhase} (hlog : s'.log = s.log ++ [e])
    (hphase : s'.phase = Function.update s.phase e.nonce ph) (hlate : ¬ ph.early)
    (hclaims : ∀ permit nonce, e = .claim permit nonce →
      nonce ≠ "" ∧ ∃ a, s'.db.attempts.get? permit = some a ∧ a.claimID = nonce)
    (hdispatches : ∀ permit nonce, e = .dispatch permit nonce → .claim permit nonce ∈ s.log)
    (hpending : ∀ permit, ph.pending permit →
      e = .claim permit e.nonce ∧ .dispatch permit e.nonce ∉ s.log)
    (honce : ∀ permit, (s.log ++ [e]).countP (Success.dispatches permit) ≤ 1) : Authorized s' := by
  have hmem (x : Success) : x ∈ s'.log ↔ x ∈ s.log ∨ x = e := by
    rw [hlog]
    simp
  refine ⟨?_, ?_, ?_, ?_, hlog ▸ honce⟩
  · intro p n hin
    obtain hin | heq := (hmem _).mp hin
    · exact h.claims_kept hr hstep hin
    · exact hclaims p n heq.symm
  · intro p n hin
    refine (hmem _).mpr (.inl ?_)
    obtain hin | heq := (hmem _).mp hin
    · exact h.dispatches p n hin
    · exact hdispatches p n heq.symm
  · intro n hearly x hin
    rw [hphase, update_apply] at hearly
    split_ifs at hearly with hn
    · exact absurd hearly hlate
    · obtain hin | rfl := (hmem _).mp hin
      · exact h.fresh n hearly x hin
      · exact Ne.symm hn
  · intro n p hp
    rw [hphase, update_apply] at hp
    split_ifs at hp with hn
    · obtain ⟨hclaim, hnot⟩ := hpending p hp
      subst hn
      refine ⟨(hmem _).mpr (.inr hclaim.symm), fun hin => ?_⟩
      obtain hin | heq := (hmem _).mp hin
      · exact hnot hin
      · exact nomatch heq.trans hclaim
    · obtain ⟨hclaim, hnot⟩ := h.pending n p hp
      refine ⟨(hmem _).mpr (.inl hclaim), fun hin => ?_⟩
      obtain hin | rfl := (hmem _).mp hin
      · exact hnot hin
      · exact hn rfl

theorem winsClaim (hw : WinsClaim s s' permit nonce) : Authorized s' := by
  refine h.wins hr hstep hw.log hw.phase id ?_ nofun ?_ fun p => ?_
  · rintro _ _ ⟨⟩
    exact ⟨hw.backs.nonce_ne, hw.backs.row⟩
  · rintro _ rfl
    exact ⟨rfl, fun hin => h.fresh nonce hw.early _ hin rfl⟩
  · simpa [Success.dispatches] using h.once p

/-- A dispatch that succeeds is its permit's first. -/
theorem winsDispatch (hw : WinsDispatch s s' permit nonce) : Authorized s' := by
  obtain ⟨hclaim, hnot⟩ := h.pending nonce permit hw.pending
  have hfirst : s.log.countP (Success.dispatches permit) = 0 := by
    rw [countP_eq_zero]
    intro e he hd
    cases e with
    | claim => exact absurd hd (by simp [Success.dispatches])
    | dispatch p n =>
      obtain rfl : p = permit := by simpa [Success.dispatches] using hd
      have hn := h.owner hclaim (h.dispatches p n he)
      exact hnot (hn ▸ he)
  refine h.wins hr hstep hw.log hw.phase id nofun ?_ (fun _ => False.elim) fun p => ?_
  · rintro _ _ ⟨⟩
    exact hclaim
  · rw [countP_append]
    by_cases hp : p = permit
    · rw [hp, hfirst]
      simp [Success.dispatches]
    · simpa [Success.dispatches, Ne.symm hp] using h.once p

end Authorized

/-- **One step keeps the authorizations sound.** -/
theorem Authorized.step (hr : (callers size).Reach s) (h : (callers size).step s s')
    (ha : Authorized s) : Authorized s' := by
  have hledger := callers_simulates.reach hr
  obtain h | ⟨op, c, db', hexec, rfl⟩ := h
  · obtain ⟨n, ph, hq⟩ | ⟨p, n, hw⟩ | ⟨p, n, hw⟩ := h.cases hledger
    · exact ha.quiet hledger h.ledgerStep hq
    · exact ha.winsClaim hledger h.ledgerStep hw
    · exact ha.winsDispatch hledger h.ledgerStep hw
  · exact ⟨fun p n hmem => ha.claims_kept hledger (.inr ⟨op, c, hexec⟩) hmem, ha.dispatches, ha.fresh,
      ha.pending, ha.once⟩

theorem authorized_of_reach (hr : (callers size).Reach s) : Authorized s := by
  refine hr.invariant ?_ fun s s' hr ih h => ih.step hr h
  rintro s ⟨-, hidle, hlog⟩
  constructor <;> simp [hlog, hidle, CallPhase.pending]

/-- An invocation that is gone does not come back. -/
theorem CallerStep.gone (hr : (ledger size).Reach s.db) (h : CallerStep s s')
    (hg : s.phase nonce = .gone) : s'.phase nonce = .gone := by
  obtain ⟨n, ph, hq⟩ | ⟨p, n, hw⟩ | ⟨p, n, hw⟩ := h.cases hr
  · rw [hq.phase, update_apply]
    split_ifs with hn
    · exact hq.gone (hn ▸ hg)
    · exact hg
  · have hn : nonce ≠ n := by
      rintro rfl
      have hearly := hw.early
      rw [hg] at hearly
      exact hearly
    rw [hw.phase, update_of_ne hn]
    exact hg
  · have hn : nonce ≠ n := by
      rintro rfl
      have hpending := hw.pending
      rw [hg] at hpending
      exact hpending
    rw [hw.phase, update_of_ne hn]
    exact hg

section

variable (hr : (callers size).Reach s)
include hr

/-- An invocation that dispatched has its dispatch among the successes. -/
theorem dispatch_mem (h : s.phase nonce = .dispatched permit) :
    Success.dispatch permit nonce ∈ s.log := by
  refine hr.invariant (P := fun s => ∀ nonce permit, s.phase nonce = .dispatched permit →
    Success.dispatch permit nonce ∈ s.log) ?_ ?_ nonce permit h
  · rintro s ⟨-, hidle, -⟩ nonce permit h
    rw [hidle] at h
    cases h
  · intro s s' hr ih hs nonce permit hphase
    obtain hs | ⟨op, c, db', -, rfl⟩ := hs
    · obtain ⟨n, ph, hq⟩ | ⟨p, n, hw⟩ | ⟨p, n, hw⟩ := hs.cases (callers_simulates.reach hr)
      · rw [hq.phase, update_apply] at hphase
        rw [hq.log]
        split_ifs at hphase
        · exact absurd hphase (hq.undispatched permit)
        · exact ih nonce permit hphase
      · rw [hw.phase, update_apply] at hphase
        rw [hw.log]
        split_ifs at hphase
        exact mem_append_left _ (ih nonce permit hphase)
      · rw [hw.phase, update_apply] at hphase
        rw [hw.log]
        split_ifs at hphase with hn
        · cases hphase
          rw [hn]
          exact mem_concat_self
        · exact mem_append_left _ (ih nonce permit hphase)
    · exact ih nonce permit hphase

/-- **An invocation that dispatched owns its permit's row.** -/
theorem owner_of_dispatched
    (h : s.phase nonce = .dispatched permit) :
    nonce ≠ "" ∧ ∃ a, s.db.attempts.get? permit = some a ∧ a.claimID = nonce := by
  have hauth := authorized_of_reach hr
  exact hauth.claims permit nonce (hauth.dispatches permit nonce (dispatch_mem hr h))

/-- Nothing succeeds for a permit that has ended. -/
theorem log_step (h : (callers size).step s s')
    (he : Ended s.db permit) :
    s'.log.filter (fun e => e.permit = permit) = s.log.filter (fun e => e.permit = permit) := by
  have hledger := callers_simulates.reach hr
  obtain h | ⟨op, c, db', -, rfl⟩ := h
  · obtain ⟨n, ph, hq⟩ | ⟨p, n, hw⟩ | ⟨p, n, hw⟩ := h.cases hledger
    · rw [hq.log]
    · have hp : p ≠ permit := fun e => hw.backs.live (e ▸ he)
      rw [hw.log]
      simp [Success.permit, hp]
    · have hp : p ≠ permit := fun e => hw.backs.live (e ▸ he)
      rw [hw.log]
      simp [Success.permit, hp]
  · rfl

theorem log_of_run (h : (callers size).Run s s')
    (he : Ended s.db permit) :
    s'.log.filter (fun e => e.permit = permit) = s.log.filter (fun e => e.permit = permit) := by
  have hkept : Ended s'.db permit
      ∧ s'.log.filter (fun e => e.permit = permit) = s.log.filter (fun e => e.permit = permit) := by
    refine System.Run.stable (P := fun t => Ended t.db permit
      ∧ t.log.filter (fun e => e.permit = permit) = s.log.filter (fun e => e.permit = permit))
      ?_ hr ⟨he, rfl⟩ h
    rintro t t' ht ⟨hend, hlog⟩ hstep
    refine ⟨?_, (log_step ht hstep hend).trans hlog⟩
    obtain hsame | hled := callers_simulates.2 t t' ht hstep
    · rw [hsame]
      exact hend
    · exact hend.step (callers_simulates.reach ht) hled
  exact hkept.2

end

/-- **At most one authorization.** Over any interleaving of invocations,
lost acknowledgements and other transactions: one nonce at most ever has a
successful claim of the permit, a dispatch succeeds at most once and only
for that nonce, and once the permit's row carries an observation, a stop or
a settlement, or its waiter is closed, no call succeeds for it again. -/
theorem authorization_at_most_once (hr : (callers size).Reach s) (permit : String) :
    (∀ n n', Success.claim permit n ∈ s.log → Success.claim permit n' ∈ s.log → n = n')
      ∧ s.log.countP (Success.dispatches permit) ≤ 1
      ∧ (∀ n, Success.dispatch permit n ∈ s.log → Success.claim permit n ∈ s.log)
      ∧ ∀ a, s.db.attempts.get? permit = some a →
        (a.observation ≠ none ∨ a.stoppedAt ≠ none ∨ a.state = .settled
          ∨ (a.kind = .ordinary ∧ ∃ w, s.db.waiters.get? a.requestID = some w
            ∧ w.closedAt ≠ none)) →
        ∀ s', (callers size).Run s s' →
          s'.log.filter (fun e => e.permit = permit) = s.log.filter (fun e => e.permit = permit) := by
  have h := authorized_of_reach hr
  refine ⟨fun n n' => h.owner, h.once permit, h.dispatches permit, ?_⟩
  intro a ha hend s' hrun
  exact log_of_run hr hrun ⟨a, ha, hend⟩

/-- Runs of the ledger are runs in which no invocation has begun. -/
theorem callers_of_ledger (hr : (ledger size).Reach db) :
    (callers size).Reach ⟨db, fun _ => .idle, []⟩ := by
  induction hr with
  | init h => exact .init ⟨h, fun _ => rfl, rfl⟩
  | step _ h ih =>
    obtain ⟨op, c, hexec⟩ := h
    exact .step ih (.inr ⟨op, c, _, hexec, rfl⟩)

/-- The sample permit's claim can be lost and confirmed, and then
dispatched. -/
def Sample.confirmable (db : DB) : Bool :=
  match claimAttempt db Sample.permit Sample.nonce (clock 1001) with
  | .error _ => false
  | .ok (a, db₁) =>
    match confirmAttemptWrite db₁ Sample.permit Sample.nonce (acceptsClaim a) (clock 1002),
      markDispatch db₁ Sample.permit Sample.nonce (clock 1003) with
    | .ok b, .ok _ => 1002 * second < b.startBy ∧ 1002 * second < b.executionDeadline
    | _, _ => false

/-- A claim whose acknowledgement was lost, confirmed by its read-back and
then dispatched: two successes, one of them a dispatch. -/
theorem authorization_at_most_once_sample :
    ∃ s, (callers Sample.size).Reach s
      ∧ s.log = [.claim Sample.permit Sample.nonce, .dispatch Sample.permit Sample.nonce]
      ∧ s.log.countP (Success.dispatches Sample.permit) ≤ 1 := by
  have hlead : Leads Sample.size Sample.reserved .empty fun db => Sample.confirmable db = true := by
    decide +kernel
  obtain ⟨db, hr, hdb⟩ := hlead.reach
  unfold Sample.confirmable at hdb
  split at hdb
  · exact absurd hdb (by simp)
  · rename_i a db₁ hclaim
    split at hdb
    · rename_i b x hconfirm hdispatch
      have hlater : 1002 * second < b.startBy ∧ 1002 * second < b.executionDeadline := by
        simpa using hdb
      have h₁ := System.Reach.step (callers_of_ledger hr) (.inl (.loseClaim true rfl hclaim))
      have h₂ := System.Reach.step h₁
        (.inl (.confirmClaim (update_self ..) hconfirm hlater))
      have h₃ := System.Reach.step h₂ (.inl (.dispatch (update_self ..) hdispatch))
      exact ⟨_, h₃, rfl, (authorization_at_most_once h₃ Sample.permit).2.1⟩
    · exact absurd hdb (by simp)

end HardenLlm.Batch
