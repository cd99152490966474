import HardenLlm.Batch.Model.Store
/-!
# What a committed transaction did

One lemma for each transaction, stating its guards and its effect on each
table; every later argument about the ledger starts from these and never
opens a transaction again. `Op.exec_effect` gathers them into the shapes
that matter for attempts and items.
-/

namespace HardenLlm.Batch

open Table

variable {size : AttemptObservation → ℕ} {db db' : DB} {c : Clock} {id nonce : String}

/-! ## Guards -/

/-- The pool's marker admits work of this generation. -/
def PoolAdmits (db : DB) (pool : String) (generation : ℤ) : Prop :=
  ∃ p, db.pools.get? pool = some p ∧ p.generation = generation ∧ p.mode = .active

/-- An ordinary permit's owner is this nonce, live, and still waiting. -/
def OwnerAdmits (db : DB) (a : Attempt) (nonce : String) (now : ℤ) : Prop :=
  a.kind = .ordinary → ∃ w, db.waiters.get? a.requestID = some w
    ∧ requestMatchesReservation w a.toReservation ∧ w.ownerID = nonce
    ∧ w.permitID = a.permitID ∧ w.closedAt = none ∧ now < w.liveUntil ∧ now < w.deadline

variable {generation : ℤ}

theorem guardPool_eq_ok {pool : String} {u : Unit} :
    guardPool db pool generation = .ok u ↔ PoolAdmits db pool generation := by
  simp only [guardPool, poolRow, bind_eq_ok, found_eq_ok, require_eq_ok, PoolAdmits]

variable {a : Attempt}

theorem guardRequestClaim_eq_ok {now : ℤ} {u : Unit} :
    guardRequestClaim db a nonce now = .ok u ↔ OwnerAdmits db a nonce now := by
  cases hk : a.kind with
  | job => simp [guardRequestClaim, OwnerAdmits, hk, pure, Except.pure]
  | ordinary =>
    simp only [guardRequestClaim, hk, readRequestWaiter, bind_eq_ok, found_eq_ok, require_eq_ok,
      OwnerAdmits, forall_const]

/-! ## Claim and dispatch -/

/-- **A committed claim**: the row was reserved and free, and now carries
the nonce. -/
structure ClaimCommits (db : DB) (id nonce : String) (c : Clock) (a a' : Attempt) (db' : DB) :
    Prop where
  nonceValid : validPermitID nonce = true
  reserved : a.state = .reserved
  unclaimed : a.claimID = ""
  pool : PoolAdmits db a.poolID a.generation
  owner : OwnerAdmits db a nonce c.guard
  inTime : c.now < a.startBy ∧ c.now < a.deadline
  row : a' = a.claimed nonce c.now (minTime a.deadline (c.now + a.budgetMS * millisecond))
  attempts : db.attempts.Replaces db'.attempts id a a'
  frame : db' = { db with attempts := db'.attempts }

variable {a' : Attempt}

theorem claimAttempt_commits (h : claimAttempt db id nonce c = .ok (a', db')) :
    ∃ a, ClaimCommits db id nonce c a a' db' := by
  simp only [claimAttempt, readAttempt, bind_eq_ok, require_eq_ok, found_eq_ok, exists_const,
    guardPool_eq_ok, guardRequestClaim_eq_ok, pure_eq_ok, Prod.mk.injEq] at h
  obtain ⟨⟨-, hn⟩, a, ha, ⟨hs, hc⟩, hp, ho, ht, rfl, rfl⟩ := h
  exact ⟨a, hn, hs, hc, hp, ho, ht, rfl, replaces_modify ha (by simp [hs]) _, rfl⟩

/-- What a dispatch does to the item of a job attempt: one more attempt
counted, within the budget. -/
def CountsDispatch (db db' : DB) (a : Attempt) : Prop :=
  match a.kind with
  | .ordinary => db'.items = db.items
  | .job => ∃ i, db.items.Replaces db'.items a.ref i { i with attempts := i.attempts + 1 }
      ∧ i.currentPermit = some a.permitID ∧ i.state = .active ∧ i.attempts < 16

theorem countDispatch_eq_ok (h : countDispatch db a = .ok db') :
    CountsDispatch db db' a ∧ db' = { db with items := db'.items } := by
  cases hk : a.kind with
  | ordinary =>
    simp only [countDispatch, hk, pure_eq_ok] at h
    subst h
    exact ⟨by simp only [CountsDispatch, hk], rfl⟩
  | job =>
    simp only [countDispatch, hk, require_seq, found_seq, pure_eq_ok] at h
    obtain ⟨i, hi, hg, rfl⟩ := h
    refine ⟨?_, rfl⟩
    simp only [CountsDispatch, hk]
    exact ⟨i, replaces_modify hi rfl _, hg⟩

/-- **A committed dispatch intent**: the claim's own nonce, once. -/
structure DispatchCommits (db : DB) (id nonce : String) (c : Clock) (a a' : Attempt) (db' : DB) :
    Prop where
  owned : a.claimID = nonce
  dispatching : a.state = .dispatching
  unstopped : a.stoppedAt = none
  unobserved : a.observation = none
  undispatched : a.dispatchedAt = none
  pool : PoolAdmits db a.poolID a.generation
  owner : OwnerAdmits db a nonce c.guard
  inTime : c.now < a.startBy ∧ c.now < a.executionDeadline
  row : a' = a.dispatched c.now
  item : CountsDispatch db db' a
  attempts : db.attempts.Replaces db'.attempts id a a'
  frame : db' = { db with attempts := db'.attempts, items := db'.items }

theorem markDispatch_commits (h : markDispatch db id nonce c = .ok (a', db')) :
    ∃ a, DispatchCommits db id nonce c a a' db' := by
  simp only [markDispatch, readAttempt, bind_eq_ok, require_eq_ok, found_eq_ok, exists_const,
    guardPool_eq_ok, guardRequestClaim_eq_ok, pure_eq_ok, Prod.mk.injEq] at h
  obtain ⟨a, ha, ⟨hn, hs, hst, hob⟩, hd, hp, ho, ht, db₁, hcount, rfl, rfl⟩ := h
  obtain ⟨hitem, hframe⟩ := countDispatch_eq_ok hcount
  rw [hframe] at hitem ⊢
  exact ⟨a, hn, hs, hst, hob, hd, hp, ho, ht, rfl, hitem, replaces_modify ha rfl _, rfl⟩

/-- **A confirmed read-back** saw a live claim of this nonce. -/
structure Confirms (db : DB) (id nonce : String) (accepts : Attempt → Prop) (c : Clock)
    (a : Attempt) : Prop where
  read : db.attempts.get? id = some a
  dispatching : a.state = .dispatching
  owned : a.claimID = nonce
  unstopped : a.stoppedAt = none
  unobserved : a.observation = none
  inTime : c.now < a.startBy ∧ c.now < a.executionDeadline
  accepted : accepts a
  pool : PoolAdmits db a.poolID a.generation
  owner : OwnerAdmits db a nonce c.guard

theorem confirmAttemptWrite_confirms {accepts : Attempt → Prop} [DecidablePred accepts]
    (h : confirmAttemptWrite db id nonce accepts c = .ok a) : Confirms db id nonce accepts c a := by
  simp only [confirmAttemptWrite, readAttempt, bind_eq_ok, require_eq_ok, found_eq_ok, exists_const,
    guardPool_eq_ok, guardRequestClaim_eq_ok, pure_eq_ok] at h
  obtain ⟨a, ha, ⟨hs, hn, -, hst, hob, ht, ht', hacc⟩, hp, ho, rfl⟩ := h
  exact ⟨ha, hs, hn, hst, hob, ⟨ht, ht'⟩, hacc, hp, ho⟩

/-! ## Observation, settlement and stop -/

variable {o : AttemptObservation}

/-- **A staged observation**: the first one is stored, a matching later
one finds it. -/
theorem stageAttempt_commits (h : stageAttempt size db id nonce o = .ok (a', db')) :
    ∃ a, db.attempts.get? id = some a ∧ validObservation size o ∧ a.claimID = nonce
      ∧ a.state ≠ .reserved ∧ observationMatchesOwner a o
      ∧ ((∃ prior, a.observation = some prior ∧ sameTerminalObservation prior o
            ∧ a' = a ∧ db' = db)
        ∨ (a.observation = none ∧ a' = a.staged o ∧ db.attempts.Replaces db'.attempts id a a'
            ∧ db' = { db with attempts := db'.attempts })) := by
  simp only [stageAttempt, readAttempt, require_seq, found_seq] at h
  obtain ⟨hv, a, ha, ⟨hn, hs⟩, hm, h⟩ := h
  refine ⟨a, ha, hv, hn, hs, hm, ?_⟩
  cases hob : a.observation with
  | some prior =>
    simp only [hob, require_seq, pure_eq_ok, Prod.mk.injEq] at h
    exact .inl ⟨prior, rfl, h.1, h.2.1.symm, h.2.2.symm⟩
  | none =>
    simp only [hob, pure_eq_ok, Prod.mk.injEq] at h
    obtain ⟨rfl, rfl⟩ := h
    exact .inr ⟨rfl, rfl, replaces_modify ha (by simp [hn]) _, rfl⟩

/-- The owner of a settling permit is released. -/
def Releases (db db' : DB) (a : Attempt) (o : AttemptObservation) (c : Clock) : Prop :=
  match a.kind with
  | .ordinary => db'.items = db.items
      ∧ ∀ id, db'.waiters.get? id = if id = a.requestID
        then (db.waiters.get? a.requestID).map fun w =>
          if w.permitID = a.permitID then { w with closedAt := w.closedAt.or (some (micro c.tx)) }
          else w
        else db.waiters.get? id
  | .job => db'.waiters = db.waiters
      ∧ ∃ i j, db.items.Replaces db'.items a.ref i (i.settledBy a o j.deadline c)
          ∧ db.jobs.get? a.ref.job = some j ∧ i.currentPermit = some a.permitID
          ∧ i.state.terminal = false

theorem applyAttemptItem_eq_ok (h : applyAttemptItem db a o c = .ok db') :
    Releases db db' a o c ∧ db' = { db with items := db'.items, waiters := db'.waiters } := by
  cases hk : a.kind with
  | ordinary =>
    simp only [applyAttemptItem, hk, pure_eq_ok] at h
    subst h
    refine ⟨?_, rfl⟩
    simp only [Releases, hk, true_and]
    intro id
    have hget := get?_modify db.waiters a.requestID
      (fun w => decide (w.permitID = a.permitID))
      ⟨fun w => { w with closedAt := w.closedAt.or (some (micro c.tx)) }, fun _ => rfl⟩ id
    simpa only [decide_eq_true_eq] using hget
  | job =>
    simp only [applyAttemptItem, hk, require_seq, found_seq, pure_eq_ok] at h
    obtain ⟨i, hi, j, hj, ⟨hp, ht⟩, rfl⟩ := h
    refine ⟨?_, rfl⟩
    simp only [Releases, hk, true_and]
    exact ⟨i, j, replaces_modify hi (by simp [hp]) _, hj, hp, ht⟩

/-- **A committed settlement** of an unsettled row. -/
structure SettleCommits (db : DB) (id : String) (c : Clock) (o : AttemptObservation)
    (a a' : Attempt) (db' : DB) : Prop where
  unsettled : a.state ≠ .settled
  row : a' = a.settledWith o
  owner : Releases db db' a o c
  attempts : db.attempts.Replaces db'.attempts id a a'
  frame : db' = { db with attempts := db'.attempts, items := db'.items, waiters := db'.waiters }

theorem settleAttempt_commits (h : settleAttempt size db id nonce o c = .ok (a', db')) :
    ∃ a, db.attempts.get? id = some a ∧ validObservation size o ∧ a.claimID = nonce
      ∧ a.state ≠ .reserved ∧ observationMatchesOwner a o
      ∧ (∀ prior ∈ a.observation, sameTerminalObservation prior o)
      ∧ ((a.state = .settled ∧ a.observation ≠ none ∧ a' = a ∧ db' = db)
        ∨ ((o.nativeEntered = true → a.dispatchedAt ≠ none)
            ∧ (o.outcome.kind = .completed →
                ∃ t ∈ o.outcome.finishedAt, t ≤ a.executionDeadline)
            ∧ SettleCommits db id c o a a' db')) := by
  simp only [settleAttempt, readAttempt, bind_eq_ok, require_eq_ok, found_eq_ok, exists_const] at h
  obtain ⟨hv, a, ha, ⟨hn, hs⟩, hm, hprior, h⟩ := h
  refine ⟨a, ha, hv, hn, hs, hm, hprior, ?_⟩
  by_cases hset : a.state = .settled
  · simp only [hset, if_true, bind_eq_ok, require_eq_ok, exists_const, pure_eq_ok,
      Prod.mk.injEq] at h
    exact .inl ⟨hset, h.1, h.2.1.symm, h.2.2.symm⟩
  · simp only [hset, if_false, bind_eq_ok, require_eq_ok, exists_const, pure_eq_ok,
      Prod.mk.injEq] at h
    obtain ⟨hnat, hfin, db₁, happly, rfl, rfl⟩ := h
    obtain ⟨hrel, hframe⟩ := applyAttemptItem_eq_ok happly
    rw [hframe] at hrel ⊢
    exact .inr ⟨hnat, hfin, hset, rfl, hrel, replaces_modify ha (by simp [hn]) _, rfl⟩

theorem confirmSettlement_eq_ok (h : confirmSettlement db id nonce o = .ok a) :
    db.attempts.get? id = some a ∧ a.state = .settled ∧ a.claimID = nonce
      ∧ ∃ stored ∈ a.observation, sameTerminalObservation stored o := by
  simp only [confirmSettlement, readAttempt, require_seq, found_seq, pure_eq_ok] at h
  obtain ⟨a, ha, hg, rfl⟩ := h
  exact ⟨ha, hg⟩

/-- **An expired reservation** was never claimed, and settles as never
sent. -/
theorem expireReservation_commits (h : expireReservation db id c = .ok (a', db')) :
    ∃ a, db.attempts.get? id = some a
      ∧ ((a.state = .settled ∧ a' = a ∧ db' = db)
        ∨ (a.state = .reserved ∧ a.claimID = "" ∧ a.startBy ≤ c.guard
            ∧ SettleCommits db id c (neverDispatchedAt c.now) a a' db')) := by
  simp only [expireReservation, readAttempt, bind_eq_ok, found_eq_ok] at h
  obtain ⟨a, ha, h⟩ := h
  refine ⟨a, ha, ?_⟩
  by_cases hset : a.state = .settled
  · simp only [hset, if_true, pure_eq_ok, Prod.mk.injEq] at h
    exact .inl ⟨hset, h.1.symm, h.2.symm⟩
  · simp only [hset, if_false, bind_eq_ok, require_eq_ok, exists_const, pure_eq_ok,
      Prod.mk.injEq] at h
    obtain ⟨⟨hs, hc⟩, ht, db₁, happly, rfl, rfl⟩ := h
    obtain ⟨hrel, hframe⟩ := applyAttemptItem_eq_ok happly
    rw [hframe] at hrel ⊢
    exact .inr ⟨hs, hc, ht, hset, rfl, hrel, replaces_modify ha (by simp [hs]) _, rfl⟩

theorem markLocalStop_commits {time : ℤ} (h : markLocalStop db id nonce time = .ok (a', db')) :
    ∃ a, db.attempts.get? id = some a ∧ a.claimID = nonce ∧ a.claimID ≠ ""
      ∧ ((a.stoppedAt ≠ none ∧ a' = a ∧ db' = db)
        ∨ (a.stoppedAt = none ∧ a' = a.stopped time ∧ db.attempts.Replaces db'.attempts id a a'
            ∧ db' = { db with attempts := db'.attempts })) := by
  simp only [markLocalStop, readAttempt, require_seq, found_seq] at h
  obtain ⟨a, ha, ⟨hn, hne⟩, h⟩ := h
  refine ⟨a, ha, hn, hne, ?_⟩
  by_cases hst : a.stoppedAt = none
  · simp only [hst, if_true, pure_eq_ok, Prod.mk.injEq] at h
    obtain ⟨rfl, rfl⟩ := h
    exact .inr ⟨hst, rfl, replaces_modify ha (by simp [hn]) _, rfl⟩
  · simp only [hst, if_false, pure_eq_ok, Prod.mk.injEq] at h
    exact .inl ⟨hst, h.1.symm, h.2.symm⟩

/-! ## Reservation -/

/-- **A committed job reservation**: an open item of the pool becomes
active under the new permit. -/
structure ReserveItemCommits (db : DB) (r : Reservation) (i : ItemRow) (j : JobRow) (a : Attempt)
    (db' : DB) : Prop where
  job : db.jobs.get? r.ref.job = some j
  matches_ : reservationMatchesSnapshot r i.request j.deadline
  pool : j.poolID = "" ∨ j.poolID = r.poolID
  free : i.currentPermit = none
  isOpen : i.state.open = true
  row : a = r.row (i.reservationOrdinal + 1)
  noClash : ∀ b ∈ db.attempts.rows, ¬ a.clashes b
  attempts : db.attempts.Adds db'.attempts a
  items : db.items.Replaces db'.items r.ref i
    { i with
      currentPermit := some r.permitID
      reservationOrdinal := i.reservationOrdinal + 1
      state := .active }
  jobs : ∀ k, db'.jobs.get? k = if k = r.ref.job
    then (db.jobs.get? r.ref.job).map fun j =>
      if j.poolID = "" then { j with poolID := r.poolID } else j
    else db.jobs.get? k
  frame : db' = { db with attempts := db'.attempts, items := db'.items, jobs := db'.jobs }

/-- **A committed ordinary reservation**: the waiter takes the permit, and
a lapsed one takes it settled. -/
structure ReserveRequestCommits (db : DB) (r : Reservation) (c : Clock) (w : RequestWaiter)
    (a : Attempt) (db' : DB) : Prop where
  waiter : db.waiters.get? r.requestID = some w
  matches_ : requestMatchesReservation w r
  free : w.permitID = ""
  row : a = r.requestRow w.ordinal (w.lapsed c.guard) c.now
  noClash : ∀ b ∈ db.attempts.rows, ¬ a.clashes b
  attempts : db.attempts.Adds db'.attempts a
  waiters : db.waiters.Replaces db'.waiters r.requestID w
    (w.granted r.permitID (w.lapsed c.guard) c.now)
  frame : db' = { db with attempts := db'.attempts, waiters := db'.waiters }

theorem insertAttempt_eq_ok (h : insertAttempt db a = .ok db') :
    (∀ b ∈ db.attempts.rows, ¬ a.clashes b) ∧ db.attempts.Adds db'.attempts a
      ∧ db' = { db with attempts := db'.attempts } := by
  simp only [insertAttempt, require_seq, found_seq, pure_eq_ok] at h
  obtain ⟨⟨hclash, -⟩, t, ht, rfl⟩ := h
  exact ⟨hclash, adds_of_insert? ht, rfl⟩

variable {r : Reservation}

theorem reserveItem_commits
    (h : reserveItem db r = .ok (a, db')) : ∃ i j, ReserveItemCommits db r i j a db' := by
  simp only [reserveItem, bind_eq_ok, require_eq_ok, found_eq_ok, exists_const, pure_eq_ok,
    Prod.mk.injEq] at h
  obtain ⟨i, hi, j, hj, hsnap, -, hfree, db₁, hins, rfl, rfl⟩ := h
  obtain ⟨hclash, hadds, hframe⟩ := insertAttempt_eq_ok hins
  simp only [not_or, not_and, not_not] at hfree
  obtain ⟨hpool, hcur, hopen⟩ := hfree
  have hitems : db₁.items = db.items := by rw [hframe]
  have hjobs : db₁.jobs = db.jobs := by rw [hframe]
  refine ⟨i, j, hj, hsnap, ?_, hcur, by simpa using hopen, rfl, hclash, hadds, ?_, ?_, ?_⟩
  · by_cases he : j.poolID = ""
    · exact .inl he
    · exact .inr (hpool he)
  · simpa only [hitems] using replaces_modify hi rfl _
  · intro k
    have hget := get?_modify db.jobs r.ref.job (fun j => decide (j.poolID = ""))
      ⟨fun j => { j with poolID := r.poolID }, fun _ => rfl⟩ k
    simpa only [hjobs, decide_eq_true_eq] using hget
  · simp only [DB.mk.injEq, true_and, and_true]
    rw [hframe]
    exact ⟨rfl, rfl⟩

theorem reserveRequest_commits
    (h : reserveRequest db r c = .ok (a, db')) : ∃ w, ReserveRequestCommits db r c w a db' := by
  simp only [reserveRequest, readRequestWaiter, bind_eq_ok, require_eq_ok, found_eq_ok,
    exists_const, pure_eq_ok, Prod.mk.injEq] at h
  obtain ⟨w, hw, ⟨hm, hfree⟩, db₁, hins, -, rfl, rfl⟩ := h
  obtain ⟨hclash, hadds, hframe⟩ := insertAttempt_eq_ok hins
  have hwaiters : db₁.waiters = db.waiters := by rw [hframe]
  refine ⟨w, hw, hm, hfree, rfl, hclash, hadds, ?_, ?_⟩
  · simpa only [hwaiters] using replaces_modify hw rfl _
  · simp only [DB.mk.injEq, and_true]
    rw [hframe]
    exact ⟨rfl, rfl, rfl⟩

/-- **A committed reservation** is a row found again or a new one. -/
theorem reserveAttempt_commits (h : reserveAttempt db r c = .ok (a, db')) :
    r.wellFormed ∧ PoolAdmits db r.poolID r.generation
      ∧ ((db.attempts.get? r.permitID = some a ∧ sameReservation a.toReservation r ∧ db' = db)
        ∨ (r.kind = .job ∧ ∃ i j, ReserveItemCommits db r i j a db')
        ∨ (r.kind = .ordinary ∧ ∃ w, ReserveRequestCommits db r c w a db')) := by
  simp only [reserveAttempt, bind_eq_ok, require_eq_ok, guardPool_eq_ok, exists_const] at h
  obtain ⟨hwf, hp, h⟩ := h
  refine ⟨hwf, hp, ?_⟩
  cases hold : db.attempts.get? r.permitID with
  | some =>
    simp only [hold, bind_eq_ok, require_eq_ok, exists_const, pure_eq_ok, Prod.mk.injEq] at h
    obtain ⟨hsame, rfl, rfl⟩ := h
    exact .inl ⟨rfl, hsame, rfl⟩
  | none =>
    cases hk : r.kind with
    | job =>
      simp only [hold, hk] at h
      exact .inr (.inl ⟨rfl, reserveItem_commits h⟩)
    | ordinary =>
      simp only [hold, hk] at h
      exact .inr (.inr ⟨rfl, reserveRequest_commits h⟩)

/-! ## Jobs, markers and waiting requests -/

/-- An item as `Create` leaves it. -/
structure ItemRow.Fresh (i : ItemRow) : Prop where
  queued : i.state = .queued
  unattempted : i.attempts = 0
  free : i.currentPermit = none
  unreserved : i.reservationOrdinal = 0

/-- **A committed submission** under a new key: one job row, and fresh
items of that job. -/
structure CreateCommits (db : DB) (s : Submission) (c : Clock) (db' : DB) : Prop where
  jobs : db.jobs.Adds db'.jobs (s.jobRow c.now)
  items : ∀ ref, (db.items.get? ref = none ∧ ref.job = (s.scope, s.id)
      ∧ ∃ i, db'.items.get? ref = some i ∧ i.Fresh)
    ∨ db'.items.get? ref = db.items.get? ref
  frame : db' = { db with jobs := db'.jobs, items := db'.items }

variable {s : Submission} {scope : String} {op : Op}

theorem Submission.rows_fresh {t : ℤ} {i : ItemRow} (h : i ∈ s.rows t) : i.Fresh := by
  simp only [Submission.rows, List.mem_map, Prod.exists] at h
  obtain ⟨item, n, -, rfl⟩ := h
  exact ⟨rfl, rfl, rfl, rfl⟩

theorem Submission.rows_ref {t : ℤ} {i : ItemRow} (h : i ∈ s.rows t) :
    i.ref.job = (s.scope, s.id) := by
  simp only [Submission.rows, List.mem_map, Prod.exists] at h
  obtain ⟨item, n, -, rfl⟩ := h
  rfl

theorem create_commits {ref : JobRef} (h : create db s c = .ok (ref, db')) :
    db' = db ∨ CreateCommits db s c db' := by
  simp only [create, require_seq] at h
  obtain ⟨-, h⟩ := h
  split at h
  · simp only [require_seq, pure_eq_ok, Prod.mk.injEq] at h
    exact .inl h.2.2.symm
  · simp only [require_seq, found_seq, pure_eq_ok, Prod.mk.injEq] at h
    obtain ⟨jobs, hjobs, -, items, hitems, -, rfl⟩ := h
    refine .inr ⟨adds_of_insert? hjobs, fun ref => ?_, rfl⟩
    rcases get?_insertAll? hitems ref with ⟨hnone, i, hi, hget, hkey⟩ | hsame
    · exact .inl ⟨hnone, hkey ▸ Submission.rows_ref hi, i, hget, Submission.rows_fresh hi⟩
    · exact .inr hsame

/-- **`Expire` acts on each item separately.** -/
theorem expire_items (h : expire db scope id = .ok db') (ref : Ref) :
    db'.items.get? ref = (db.items.get? ref).map fun i =>
      if i.expirable scope id then { i with state := .failed, outcome := expiredOutcome } else i := by
  simp only [expire, found_seq, pure_eq_ok] at h
  obtain ⟨-, -, rfl⟩ := h
  exact get?_update ..

theorem expire_frame (h : expire db scope id = .ok db') : db' = { db with items := db'.items } := by
  simp only [expire, found_seq, pure_eq_ok] at h
  obtain ⟨-, -, rfl⟩ := h
  rfl

/-- **A committed takeover**: the pool's name goes into a job no other pool
owns. -/
theorem attachJob_commits {pool : String} (h : attachJob db pool generation scope id = .ok db') :
    ∃ j, (j.poolID = "" ∨ j.poolID = pool)
      ∧ db.jobs.Replaces db'.jobs (scope, id) j { j with poolID := pool }
      ∧ db' = { db with jobs := db'.jobs } := by
  simp only [attachJob, bind_eq_ok, require_eq_ok, found_eq_ok, guardPool_eq_ok, exists_const,
    pure_eq_ok] at h
  obtain ⟨-, -, j, hj, hfree, rfl⟩ := h
  exact ⟨j, hfree, replaces_modify hj (by simpa using hfree) _, rfl⟩

/-- **A committed marker**: it was there, or it is added. -/
theorem ensurePool_commits (h : ensurePool db id generation = .ok db') :
    db' = db ∨ ∃ p pools, db.pools.Adds pools p ∧ db' = { db with pools := pools } := by
  simp only [ensurePool, require_seq] at h
  obtain ⟨-, h⟩ := h
  split at h
  · simp only [require_seq, pure_eq_ok] at h
    exact .inl h.2.symm
  · simp only [found_seq, pure_eq_ok] at h
    obtain ⟨pools, hins, rfl⟩ := h
    exact .inr ⟨_, pools, adds_of_insert? hins, rfl⟩

theorem quiescePool_commits (h : quiescePool db id generation = .ok db') :
    ∃ p, db.pools.get? id = some p ∧ p.generation = generation
      ∧ db' = db.setPool id (fun m => m.mode = .active) generation .quiescing := by
  simp only [quiescePool, poolRow, require_seq, found_seq, pure_eq_ok] at h
  obtain ⟨p, hp, hgen, rfl⟩ := h
  exact ⟨p, hp, hgen, rfl⟩

/-- **A marker handed on**, or found so: nothing of the old generation is
outstanding. -/
def HandsOn (db : DB) (id : String) (db' : DB) : Prop :=
  db' = db ∨ ∃ p generation, db.pools.get? id = some p ∧ generation = p.generation + 1
    ∧ ¬ attemptOutstanding db id ∧ db' = db.setPool id (fun _ => true) generation .active

theorem advancePool_commits {old new : ℤ} (h : advancePool db id old new = .ok db') :
    HandsOn db id db' := by
  simp only [advancePool, poolRow, require_seq, found_seq] at h
  obtain ⟨hnew, p, hp, h⟩ := h
  split at h
  · simp only [pure_eq_ok] at h
    exact .inl h.symm
  · simp only [require_seq, pure_eq_ok] at h
    obtain ⟨⟨hold, -⟩, hidle, rfl⟩ := h
    exact .inr ⟨p, new, hp, by omega, fun ho => hidle (.inl ho), rfl⟩

theorem adoptLegacyPool_commits {fence : PoolFence} (h : adoptLegacyPool db id = .ok (fence, db')) :
    HandsOn db id db' := by
  simp only [adoptLegacyPool, poolRow, require_seq, found_seq] at h
  obtain ⟨-, p, hp, h⟩ := h
  split at h
  · simp only [pure_eq_ok, Prod.mk.injEq] at h
    exact .inl h.2.symm
  · simp only [require_seq, pure_eq_ok, Prod.mk.injEq] at h
    obtain ⟨hold, -, hidle, -, rfl⟩ := h
    exact .inr ⟨p, 2, hp, by omega, fun ho => hidle (.inl ho), rfl⟩

theorem HandsOn.frame (h : HandsOn db id db') : db' = { db with pools := db'.pools } := by
  obtain rfl | ⟨_, _, -, -, -, rfl⟩ := h <;> rfl

/-- **A committed request** is a new waiter, or one found again. -/
theorem enqueueRequest_commits {w w' : RequestWaiter} (h : enqueueRequest db w c = .ok (w', db')) :
    db' = db ∨ (1 ≤ w.ordinal ∧ db.waiters.Adds db'.waiters (w.enqueued c.now)
      ∧ db' = { db with waiters := db'.waiters }) := by
  simp only [enqueueRequest, poolRow, require_seq, found_seq] at h
  obtain ⟨⟨-, -, -, -, -, -, hord, -⟩, p, -, -, h⟩ := h
  split at h
  · simp only [require_seq, pure_eq_ok, Prod.mk.injEq] at h
    exact .inl h.2.2.symm
  · simp only [require_seq, found_seq, pure_eq_ok, Prod.mk.injEq] at h
    obtain ⟨-, -, -, t, ht, -, rfl⟩ := h
    exact .inr ⟨hord, adds_of_insert? ht, rfl⟩

/-- **A committed read** of a request may extend its lease. -/
theorem readRequest_commits {owner : String} {refresh : Bool} {w : RequestWaiter}
    (h : readRequest db scope id owner refresh c = .ok (w, db')) :
    db' = db ∨ ∃ v until_, db.waiters.Replaces db'.waiters id v { v with liveUntil := until_ }
      ∧ db' = { db with waiters := db'.waiters } := by
  simp only [readRequest, readRequestWaiter, require_seq, found_seq] at h
  obtain ⟨-, v, hv, -, h⟩ := h
  split at h
  · simp only [pure_eq_ok, Prod.mk.injEq] at h
    obtain ⟨-, rfl⟩ := h
    exact .inr ⟨v, _, replaces_modify hv rfl _, rfl⟩
  · simp only [pure_eq_ok, Prod.mk.injEq] at h
    exact .inl h.2.symm

/-- **A committed cancellation** closes the waiter, once. -/
theorem cancelRequest_commits {owner : String} (h : cancelRequest db scope id owner c = .ok db') :
    ∃ w, db.waiters.Replaces db'.waiters id w
        { w with closedAt := w.closedAt.or (some (micro c.tx)) }
      ∧ db' = { db with waiters := db'.waiters } := by
  simp only [cancelRequest, readRequestWaiter, require_seq, found_seq, pure_eq_ok] at h
  obtain ⟨-, w, hw, hown, rfl⟩ := h
  exact ⟨w, replaces_modify hw (by simpa using hown) _, rfl⟩

/-! ## Every transaction -/

/-- The transactions that may write a pool's marker. -/
def Op.marks : Op → Bool
  | .ensurePool _ _ | .quiescePool _ _ | .advancePool _ _ _ | .adoptLegacyPool _ => true
  | _ => false

/-- **What touches neither attempts nor items**: attaching a job, the pool
markers, the waiting requests, and every call that finds its work already
done. -/
inductive Side (c : Clock) (db db' : DB) : Op → Prop
  | same {op : Op} (h : db' = db) : Side c db db' op
  | attached {pool scope id : String} {generation : ℤ} {j : JobRow}
      (free : j.poolID = "" ∨ j.poolID = pool)
      (jobs : db.jobs.Replaces db'.jobs (scope, id) j { j with poolID := pool })
      (frame : db' = { db with jobs := db'.jobs }) :
      Side c db db' (.attachJob pool generation scope id)
  | marked {op : Op} (marks : op.marks = true) (frame : db' = { db with pools := db'.pools }) :
      Side c db db' op
  | enqueued {w : RequestWaiter} (ordinal : 1 ≤ w.ordinal)
      (waiters : db.waiters.Adds db'.waiters (w.enqueued c.now))
      (frame : db' = { db with waiters := db'.waiters }) : Side c db db' (.enqueueRequest w)
  | refreshed {scope id owner : String} {refresh : Bool} {w : RequestWaiter} {until_ : ℤ}
      (waiters : db.waiters.Replaces db'.waiters id w { w with liveUntil := until_ })
      (frame : db' = { db with waiters := db'.waiters }) :
      Side c db db' (.readRequest scope id owner refresh)
  | cancelled {scope id owner : String} {w : RequestWaiter}
      (waiters : db.waiters.Replaces db'.waiters id w
        { w with closedAt := w.closedAt.or (some (micro c.tx)) })
      (frame : db' = { db with waiters := db'.waiters }) :
      Side c db db' (.cancelRequest scope id owner)

theorem Side.kept (h : Side c db db' op) : db'.items = db.items ∧ db'.attempts = db.attempts := by
  cases h with
  | same hframe | attached _ _ hframe | marked _ hframe | enqueued _ _ hframe | refreshed _ hframe
  | cancelled _ hframe =>
    rw [hframe]
    exact ⟨rfl, rfl⟩

/-- **The effect of a transaction.** -/
inductive Effect (size : AttemptObservation → ℕ) (c : Clock) (db db' : DB) : Op → Prop
  | side {op : Op} (h : Side c db db' op) : Effect size c db db' op
  | created {s : Submission} (h : CreateCommits db s c db') : Effect size c db db' (.create s)
  | expired {scope id : String} (frame : db' = { db with items := db'.items })
      (items : ∀ ref, db'.items.get? ref = (db.items.get? ref).map fun i =>
        if i.expirable scope id then { i with state := .failed, outcome := expiredOutcome } else i) :
      Effect size c db db' (.expire scope id)
  | reservedItem {r : Reservation} {i : ItemRow} {j : JobRow} {a : Attempt} (wf : r.wellFormed)
      (admits : PoolAdmits db r.poolID r.generation) (kind : r.kind = .job)
      (h : ReserveItemCommits db r i j a db') : Effect size c db db' (.reserveAttempt r)
  | reservedRequest {r : Reservation} {w : RequestWaiter} {a : Attempt}
      (wf : r.wellFormed) (admits : PoolAdmits db r.poolID r.generation) (kind : r.kind = .ordinary)
      (h : ReserveRequestCommits db r c w a db') : Effect size c db db' (.reserveAttempt r)
  | claimed {id nonce : String} {a a' : Attempt} (h : ClaimCommits db id nonce c a a' db') :
      Effect size c db db' (.claimAttempt id nonce)
  | dispatched {id nonce : String} {a a' : Attempt} (h : DispatchCommits db id nonce c a a' db') :
      Effect size c db db' (.markDispatch id nonce)
  | staged {id nonce : String} {a : Attempt} {o : AttemptObservation} (owned : a.claimID = nonce)
      (valid : validObservation size o) (taken : a.state ≠ .reserved)
      (unobserved : a.observation = none)
      (h : db.attempts.Replaces db'.attempts id a (a.staged o))
      (frame : db' = { db with attempts := db'.attempts }) :
      Effect size c db db' (.stageAttempt id nonce o)
  | settled {id nonce : String} {o : AttemptObservation} {a a' : Attempt} (owned : a.claimID = nonce)
      (valid : validObservation size o) (taken : a.state ≠ .reserved)
      (agrees : ∀ prior ∈ a.observation, sameTerminalObservation prior o)
      (h : SettleCommits db id c o a a' db') : Effect size c db db' (.settleAttempt id nonce o)
  | lapsed {id : String} {a a' : Attempt} (reserved : a.state = .reserved)
      (unclaimed : a.claimID = "") (h : SettleCommits db id c (neverDispatchedAt c.now) a a' db') :
      Effect size c db db' (.expireReservation id)
  | stopped {id nonce : String} {a : Attempt} {time : ℤ} (owned : a.claimID = nonce)
      (claimed : a.claimID ≠ "") (unstopped : a.stoppedAt = none)
      (h : db.attempts.Replaces db'.attempts id a (a.stopped time))
      (frame : db' = { db with attempts := db'.attempts }) :
      Effect size c db db' (.markLocalStop id nonce time)

theorem map_snd_eq_ok {α : Type} {x : Except Err (α × DB)} (h : Prod.snd <$> x = .ok db') :
    ∃ a, x = .ok (a, db') := by
  cases x with
  | error => cases h
  | ok p => exact ⟨p.1, by cases h; rfl⟩

theorem map_snd_of_eq_ok {α : Type} {x : Except Err (α × DB)} {a : α} (h : x = .ok (a, db')) :
    Prod.snd <$> x = .ok db' := by
  rw [h]
  rfl

/-- **What a committed operation did.** -/
theorem Op.exec_effect (h : op.exec size c db = .ok db') : Effect size c db db' op := by
  cases op with
  | create =>
    obtain ⟨ref, h⟩ := map_snd_eq_ok h
    obtain rfl | h := create_commits h
    · exact .side (.same rfl)
    · exact .created h
  | attachJob =>
    obtain ⟨j, hfree, hjobs, hframe⟩ := attachJob_commits h
    exact .side (.attached hfree hjobs hframe)
  | expire => exact .expired (expire_frame h) (expire_items h)
  | ensurePool =>
    obtain rfl | ⟨_, _, -, rfl⟩ := ensurePool_commits h
    · exact .side (.same rfl)
    · exact .side (.marked rfl rfl)
  | quiescePool =>
    obtain ⟨_, -, -, rfl⟩ := quiescePool_commits h
    exact .side (.marked rfl rfl)
  | advancePool => exact .side (.marked rfl (advancePool_commits h).frame)
  | adoptLegacyPool =>
    obtain ⟨fence, h⟩ := map_snd_eq_ok h
    exact .side (.marked rfl (adoptLegacyPool_commits h).frame)
  | enqueueRequest =>
    obtain ⟨w', h⟩ := map_snd_eq_ok h
    obtain rfl | ⟨hord, hadds, hframe⟩ := enqueueRequest_commits h
    · exact .side (.same rfl)
    · exact .side (.enqueued hord hadds hframe)
  | readRequest =>
    obtain ⟨w', h⟩ := map_snd_eq_ok h
    obtain rfl | ⟨w, until_, hrep, hframe⟩ := readRequest_commits h
    · exact .side (.same rfl)
    · exact .side (.refreshed hrep hframe)
  | cancelRequest =>
    obtain ⟨w, hrep, hframe⟩ := cancelRequest_commits h
    exact .side (.cancelled hrep hframe)
  | reserveAttempt =>
    obtain ⟨a, h⟩ := map_snd_eq_ok h
    obtain ⟨hwf, hp, ⟨-, -, rfl⟩ | ⟨hk, i, j, h⟩ | ⟨hk, w, h⟩⟩ := reserveAttempt_commits h
    · exact .side (.same rfl)
    · exact .reservedItem hwf hp hk h
    · exact .reservedRequest hwf hp hk h
  | claimAttempt =>
    obtain ⟨a', h⟩ := map_snd_eq_ok h
    obtain ⟨a, h⟩ := claimAttempt_commits h
    exact .claimed h
  | markDispatch =>
    obtain ⟨a', h⟩ := map_snd_eq_ok h
    obtain ⟨a, h⟩ := markDispatch_commits h
    exact .dispatched h
  | stageAttempt =>
    obtain ⟨a', h⟩ := map_snd_eq_ok h
    obtain ⟨a, -, hv, hn, hs, -, ⟨-, -, -, -, rfl⟩ | ⟨hob, rfl, hrep, hframe⟩⟩ :=
      stageAttempt_commits h
    · exact .side (.same rfl)
    · exact .staged hn hv hs hob hrep hframe
  | settleAttempt =>
    obtain ⟨a', h⟩ := map_snd_eq_ok h
    obtain ⟨a, -, hv, hn, hs, -, hprior, ⟨-, -, -, rfl⟩ | ⟨-, -, h⟩⟩ := settleAttempt_commits h
    · exact .side (.same rfl)
    · exact .settled hn hv hs hprior h
  | expireReservation =>
    obtain ⟨a', h⟩ := map_snd_eq_ok h
    obtain ⟨a, -, ⟨-, -, rfl⟩ | ⟨hs, hc, -, h⟩⟩ := expireReservation_commits h
    · exact .side (.same rfl)
    · exact .lapsed hs hc h
  | markLocalStop =>
    obtain ⟨a', h⟩ := map_snd_eq_ok h
    obtain ⟨a, -, hn, hc, ⟨-, -, rfl⟩ | ⟨hst, rfl, hrep, hframe⟩⟩ := markLocalStop_commits h
    · exact .side (.same rfl)
    · exact .stopped hn hc hst hrep hframe

/-- Only the marker transactions write a marker. -/
theorem Effect.pools (h : Effect size c db db' op) (hm : op.marks = false) :
    db'.pools = db.pools := by
  cases h with
  | side h =>
    cases h with
    | same h => rw [h]
    | marked hmarks =>
      rw [hm] at hmarks
      cases hmarks
    | attached _ _ hframe | enqueued _ _ hframe | refreshed _ hframe | cancelled _ hframe =>
      rw [hframe]
  | created h | reservedItem _ _ _ h | reservedRequest _ _ _ h | claimed h | dispatched h
  | settled _ _ _ _ h | lapsed _ _ h => rw [h.frame]
  | expired hframe _ | staged _ _ _ _ _ hframe | stopped _ _ _ _ hframe => rw [hframe]

end HardenLlm.Batch
