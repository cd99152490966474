import HardenLlm.Batch.Effects
/-!
# The life of a permit's row

Seen from one permit, the ledger is a small automaton: a row is added
reserved, or already settled for a lapsed request, and then only moves by
the six steps of `RowStep`. `Effect.row` is the refinement: whatever
transaction commits, each permit's row stays, is added, or takes one of
these steps. What survives a step is read off the automaton once
(`Attempt.Later`) and holds between any two states of a run.
-/

namespace HardenLlm.Batch

open Attempt

variable {size : AttemptObservation → ℕ} {db db' : DB} {id : String} {a b a' : Attempt} {c : Clock}
  {op : Op}

/-- **The steps of a permit's row.** -/
inductive RowStep (size : AttemptObservation → ℕ) (a : Attempt) : Attempt → Prop
  | claim {nonce : String} {now deadline : ℤ} (reserved : a.state = .reserved)
      (unclaimed : a.claimID = "") (nonce_ne : nonce ≠ "") :
      RowStep size a (a.claimed nonce now deadline)
  | dispatch {now : ℤ} (dispatching : a.state = .dispatching) (unstopped : a.stoppedAt = none)
      (unobserved : a.observation = none) (undispatched : a.dispatchedAt = none) :
      RowStep size a (a.dispatched now)
  | stage {o : AttemptObservation} (valid : validObservation size o) (taken : a.state ≠ .reserved)
      (unobserved : a.observation = none) : RowStep size a (a.staged o)
  | settle {o : AttemptObservation} (valid : validObservation size o)
      (dispatching : a.state = .dispatching)
      (agrees : ∀ prior ∈ a.observation, sameTerminalObservation prior o) :
      RowStep size a (a.settledWith o)
  | lapse {now : ℤ} (reserved : a.state = .reserved) (unclaimed : a.claimID = "") :
      RowStep size a (a.settledWith (neverDispatchedAt now))
  | stop {time : ℤ} (claimed : a.claimID ≠ "") (unstopped : a.stoppedAt = none) :
      RowStep size a (a.stopped time)

/-- **A row as its reservation adds it.** -/
inductive Attempt.New : Attempt → Prop
  | reserved (r : Reservation) (ordinal : ℤ) : New (r.row ordinal)
  | lapsed (r : Reservation) (ordinal now : ℤ) :
      New ((r.row ordinal).settledWith (neverDispatchedAt now))

/-- The row under a permit stayed, was added for a generation its pool
admits, or took one step. -/
def RowMoves (size : AttemptObservation → ℕ) (db db' : DB) (id : String) : Prop :=
  db'.attempts.get? id = db.attempts.get? id
    ∨ (db.attempts.get? id = none ∧ ∃ a, db'.attempts.get? id = some a ∧ a.New
        ∧ PoolAdmits db' a.poolID a.generation)
    ∨ ∃ a a', db.attempts.get? id = some a ∧ db'.attempts.get? id = some a' ∧ RowStep size a a'

/-- A single-row update either misses a permit or is a step of its row. -/
theorem RowMoves.of_replaces {k : String} (h : db.attempts.Replaces db'.attempts k a a')
    (hstep : RowStep size a a') (id : String) : RowMoves size db db' id := by
  by_cases hk : id = k
  · subst hk
    exact .inr (.inr ⟨a, a', h.old, h.get_self, hstep⟩)
  · exact .inl (h.get_ne hk)

theorem RowMoves.of_adds (h : db.attempts.Adds db'.attempts a) (hnew : a.New)
    (hp : PoolAdmits db' a.poolID a.generation) (id : String) : RowMoves size db db' id := by
  by_cases hk : id = a.permitID
  · subst hk
    exact .inr (.inl ⟨h.free, a, h.get_self, hnew, hp⟩)
  · exact .inl (h.get_ne hk)

/-- **The ledger refines the automaton**: a committed transaction leaves
each permit's row alone, adds it, or takes it one step. -/
theorem Effect.row (h : Effect size c db db' op) (id : String) : RowMoves size db db' id := by
  cases h with
  | side h => exact .inl (by rw [h.kept.2])
  | created h => exact .inl (by rw [h.frame])
  | expired hframe => exact .inl (by rw [hframe])
  | reservedItem _ hp _ h =>
    refine .of_adds h.attempts (h.row ▸ .reserved ..) ?_ id
    rw [h.row, PoolAdmits, h.frame]
    exact hp
  | reservedRequest _ hp _ h =>
    refine .of_adds h.attempts ?_ ?_ id
    · rw [h.row, Reservation.requestRow]
      split
      · exact .lapsed ..
      · exact .reserved ..
    · rw [h.row, Reservation.requestRow, PoolAdmits, h.frame]
      split <;> exact hp
  | claimed h =>
    refine .of_replaces h.attempts ?_ id
    rw [h.row]
    exact .claim h.reserved h.unclaimed (validPermitID_ne_empty h.nonceValid)
  | dispatched h =>
    refine .of_replaces h.attempts ?_ id
    rw [h.row]
    exact .dispatch h.dispatching h.unstopped h.unobserved h.undispatched
  | staged _ hv hs hob h => exact .of_replaces h (.stage hv hs hob) id
  | @settled _ _ _ a _ _ hv hs hagrees h =>
    refine .of_replaces h.attempts ?_ id
    rw [h.row]
    refine .settle hv ?_ hagrees
    cases hst : a.state with
    | reserved => exact absurd hst hs
    | dispatching => rfl
    | settled => exact absurd hst h.unsettled
  | lapsed hs hc h =>
    refine .of_replaces h.attempts ?_ id
    rw [h.row]
    exact .lapse hs hc
  | stopped _ hc hst h => exact .of_replaces h (.stop hc hst) id

/-- A step leaves the reservation alone. -/
theorem RowStep.reservation (h : RowStep size a a') : a'.toReservation = a.toReservation := by
  cases h <;> rfl

theorem RowStep.ordinal (h : RowStep size a a') : a'.ordinal = a.ordinal := by
  cases h <;> rfl

/-- **A stored permit keeps its reservation.** -/
theorem Effect.reservation (h : Effect size c db db' op) (ha : db.attempts.get? id = some a) :
    ∃ a', db'.attempts.get? id = some a' ∧ a'.toReservation = a.toReservation := by
  obtain hsame | ⟨hnone, -⟩ | ⟨b, b', hb, hb', hstep⟩ := h.row id
  · exact ⟨a, hsame.trans ha, rfl⟩
  · rw [ha] at hnone
    exact absurd hnone (by simp)
  · obtain rfl := Option.mem_unique ha hb
    exact ⟨b', hb', hstep.reservation⟩

/-- **Where a row comes from**: it was there, or this operation reserved
it, for an item or for a request. -/
theorem Effect.origin (h : Effect size c db db' op) (ha : db'.attempts.get? id = some a') :
    (∃ a, db.attempts.get? id = some a ∧ a'.toReservation = a.toReservation ∧ a'.ordinal = a.ordinal)
      ∨ ∃ r, op = .reserveAttempt r ∧ r.wellFormed ∧ r.permitID = id ∧ a'.toReservation = r.stored
        ∧ ((∃ i j, r.kind = .job ∧ ReserveItemCommits db r i j a' db')
          ∨ ∃ w, r.kind = .ordinary ∧ ReserveRequestCommits db r c w a' db') := by
  cases hold : db.attempts.get? id with
  | some a =>
    obtain hsame | ⟨hnone, -⟩ | ⟨b, b', hb, hb', hstep⟩ := h.row id
    · rw [ha, hold] at hsame
      obtain rfl := Option.some.inj hsame
      exact .inl ⟨a', rfl, rfl, rfl⟩
    · rw [hold] at hnone
      cases hnone
    · obtain rfl := Option.mem_unique hold hb
      obtain rfl := Option.mem_unique ha hb'
      exact .inl ⟨a, rfl, hstep.reservation, hstep.ordinal⟩
  | none =>
    -- a row that was not there was added, and only a reservation adds one
    have hadds : ∀ {b : Attempt}, db.attempts.Adds db'.attempts b → b = a' ∧ b.permitID = id := by
      intro b hadd
      rw [hadd.get] at ha
      split at ha
      · rename_i hid
        exact ⟨Option.some.inj ha, hid.symm⟩
      · rw [hold] at ha
        cases ha
    have hnew : db'.attempts.get? id ≠ none := by simp [ha]
    cases h with
    | @reservedItem r i j b hwf _ hk h =>
      obtain ⟨rfl, hid⟩ := hadds h.attempts
      exact .inr ⟨r, rfl, hwf, by rw [← hid, h.row]; rfl, by rw [h.row]; rfl, .inl ⟨i, j, hk, h⟩⟩
    | @reservedRequest r w b hwf _ hk h =>
      obtain ⟨rfl, hid⟩ := hadds h.attempts
      have hres : b.toReservation = r.stored := by
        rw [h.row, Reservation.requestRow]
        split <;> rfl
      exact .inr ⟨r, rfl, hwf, by rw [← hid, hres]; rfl, hres, .inr ⟨w, hk, h⟩⟩
    | side h => exact absurd (by rw [h.kept.2, hold]) hnew
    | created h => exact absurd (by rw [h.frame, hold]) hnew
    | expired hframe => exact absurd (by rw [hframe, hold]) hnew
    | claimed h | dispatched h | settled _ _ _ _ h | lapsed _ _ h =>
      exact absurd (h.attempts.get_none hold) hnew
    | staged _ _ _ _ h _ | stopped _ _ _ h _ => exact absurd (h.get_none hold) hnew

/-! ## Rows are well formed -/

/-- **What every stored row satisfies**, the check constraints of the
table among it. -/
structure Attempt.WellFormed (a : Attempt) : Prop where
  reserved : a.state = .reserved → a.claimID = "" ∧ a.observation = none ∧ a.stoppedAt = none
  dispatching : a.state = .dispatching → a.claimID ≠ ""
  settled : a.state = .settled → a.observation ≠ none ∧ 1 ≤ a.settlementRevision
  unsettled : a.state ≠ .settled → a.settlementRevision = 0
  unclaimed : a.claimID = "" → a.claimedAt = none ∧ a.dispatchedAt = none
  claimed : a.claimID ≠ "" → a.claimedAt ≠ none ∧ a.generationDeadline ≠ none
  lapsed : a.state = .settled → a.claimID = "" → a.stoppedAt ≠ none
  stopEvidence : ∀ o, a.observation = some o → o.localStopped = true → a.stoppedAt ≠ none

theorem Attempt.New.wellFormed (h : a.New) : a.WellFormed := by
  cases h with
  | reserved => constructor <;> simp [Reservation.row]
  | lapsed =>
    constructor <;> simp [Reservation.row, settledWith, stopEvidence, neverDispatchedAt]

theorem RowStep.wellFormed (h : RowStep size a a') (ha : a.WellFormed) : a'.WellFormed := by
  cases h with
  | claim hs =>
    have hob := (ha.reserved hs).2.1
    have hrev := ha.unsettled (by simp [hs])
    constructor <;> simp_all [claimed]
  | dispatch hs =>
    have hc := ha.dispatching hs
    have hrev := ha.unsettled (by simp [hs])
    have hcl := ha.claimed hc
    constructor <;> simp_all [dispatched]
  | @stage o hv hs hob =>
    have hns : a.state ≠ .settled := fun h => (ha.settled h).1 hob
    have hd : a.state = .dispatching := by
      cases h : a.state with
      | reserved => exact absurd h hs
      | dispatching => rfl
      | settled => exact absurd h hns
    have hc := ha.dispatching hd
    have hrev := ha.unsettled hns
    have hcl := ha.claimed hc
    constructor <;> simp_all [staged, stopEvidence]
  | settle hv hd =>
    have hc := ha.dispatching hd
    have hcl := ha.claimed hc
    constructor <;> simp_all [settledWith, stopEvidence]
  | lapse hs hc =>
    have hcl := ha.unclaimed hc
    constructor <;> simp_all [settledWith, stopEvidence, neverDispatchedAt]
  | stop hc =>
    have hcl := ha.claimed hc
    have hnr : a.state ≠ .reserved := fun h => hc (ha.reserved h).1
    constructor
    · intro h
      exact absurd h hnr
    · intro _
      exact hc
    · intro h
      have := ha.settled h
      simp only [stopped] at h ⊢
      rw [if_pos h]
      exact ⟨this.1, by omega⟩
    · intro h
      simp only [stopped] at h ⊢
      rw [if_neg h]
      exact ha.unsettled h
    · intro h
      exact absurd h hc
    · intro _
      exact hcl
    · intro _ h
      exact absurd h hc
    · intro o _ _
      simp [stopped]

/-- **Every row of a reachable ledger is well formed.** -/
theorem wellFormed_of_reach (h : (ledger size).Reach db) (ha : db.attempts.get? id = some a) :
    a.WellFormed := by
  refine System.Reach.invariant (P := fun db => ∀ id a, db.attempts.get? id = some a → a.WellFormed)
    ?_ ?_ h id a ha
  · rintro db rfl id a h
    cases h
  · rintro db db' - ih ⟨op, c, hexec⟩ id a ha
    rcases (Op.exec_effect hexec).row id with h | ⟨-, b, hb, hnew, -⟩ | ⟨b, b', hb, hb', hstep⟩
    · exact ih id a (h ▸ ha)
    · rw [ha] at hb
      cases hb
      exact hnew.wellFormed
    · rw [ha] at hb'
      cases hb'
      exact hstep.wellFormed (ih id b hb)

/-! ## What a row keeps -/

/-- **`a'` is a later version of the row `a`.** What is written once is
kept: the claim, the dispatch, the observation up to storage precision and
stop evidence. A settled row keeps its observation and its stop time to the
letter, and only its revision still moves. -/
structure Attempt.Later (a a' : Attempt) : Prop where
  reservation : a'.toReservation = a.toReservation
  ordinal : a'.ordinal = a.ordinal
  claimID : a.claimID ≠ "" → a'.claimID = a.claimID
  claimedAt : a.claimedAt ≠ none → a'.claimedAt = a.claimedAt
  dispatchedAt : a.dispatchedAt ≠ none → a'.dispatchedAt = a.dispatchedAt
  taken : a.state ≠ .reserved → a'.state ≠ .reserved
  absorbing : a.state = .settled → a'.state = .settled ∧ a'.observation = a.observation
    ∧ a'.claimID = a.claimID ∧ a'.dispatchedAt = a.dispatchedAt
  observation : ∀ o, a.observation = some o →
    ∃ o', a'.observation = some o' ∧ sameTerminalObservation o o'
  stopKept : a.stoppedAt ≠ none → a'.stoppedAt ≠ none
  stopFixed : a.state = .settled → a.stoppedAt ≠ none → a'.stoppedAt = a.stoppedAt
  revision : a.settlementRevision ≤ a'.settlementRevision
  stopRevised : a.state = .settled → a.stoppedAt = none → a'.stoppedAt ≠ none →
    a.settlementRevision < a'.settlementRevision

theorem Attempt.Later.refl (a : Attempt) : a.Later a where
  reservation := rfl
  ordinal := rfl
  claimID := fun _ => rfl
  claimedAt := fun _ => rfl
  dispatchedAt := fun _ => rfl
  taken := id
  absorbing := fun h => ⟨h, rfl, rfl, rfl⟩
  observation := fun o ho => ⟨o, ho, rfl⟩
  stopKept := id
  stopFixed := fun _ _ => rfl
  revision := Int.le_refl _
  stopRevised := fun _ h h' => absurd h h'

theorem Attempt.Later.trans (h : a.Later b) (h' : b.Later a') : a.Later a' where
  reservation := h'.reservation.trans h.reservation
  ordinal := h'.ordinal.trans h.ordinal
  claimID := fun hc => (h'.claimID (h.claimID hc ▸ hc)).trans (h.claimID hc)
  claimedAt := fun hc => (h'.claimedAt (h.claimedAt hc ▸ hc)).trans (h.claimedAt hc)
  dispatchedAt := fun hd => (h'.dispatchedAt (h.dispatchedAt hd ▸ hd)).trans (h.dispatchedAt hd)
  taken := fun hs => h'.taken (h.taken hs)
  absorbing := by
    intro hs
    obtain ⟨hs₁, ho₁, hc₁, hd₁⟩ := h.absorbing hs
    obtain ⟨hs₂, ho₂, hc₂, hd₂⟩ := h'.absorbing hs₁
    exact ⟨hs₂, ho₂.trans ho₁, hc₂.trans hc₁, hd₂.trans hd₁⟩
  observation := by
    intro o ho
    obtain ⟨o₁, ho₁, hsame₁⟩ := h.observation o ho
    obtain ⟨o₂, ho₂, hsame₂⟩ := h'.observation o₁ ho₁
    exact ⟨o₂, ho₂, hsame₁.trans hsame₂⟩
  stopKept := fun hs => h'.stopKept (h.stopKept hs)
  stopFixed := by
    intro hs hst
    rw [h'.stopFixed (h.absorbing hs).1 (h.stopKept hst), h.stopFixed hs hst]
  revision := Int.le_trans h.revision h'.revision
  stopRevised := by
    intro hs hst hst'
    -- the evidence arrived before or after the middle version
    by_cases hb : b.stoppedAt = none
    · have := h'.stopRevised (h.absorbing hs).1 hb hst'
      have := h.revision
      omega
    · have := h.stopRevised hs hst hb
      have := h'.revision
      omega

/-- **A step leads to a later version.** -/
theorem RowStep.later (h : RowStep size a a') (ha : a.WellFormed) : a.Later a' := by
  cases h with
  | claim hs hc =>
    have hw := ha.unclaimed hc
    constructor <;> simp_all [claimed, sameTerminalObservation]
  | dispatch => constructor <;> simp_all [dispatched]
  | @stage o hv hs hob =>
    have hns : a.state ≠ .settled := fun h => (ha.settled h).1 hob
    constructor <;> simp_all [staged, stopEvidence]
    split <;> simp_all
  | settle hv hd =>
    have hrev := ha.unsettled (by simp [hd])
    constructor <;> simp_all [settledWith, stopEvidence]
    split <;> simp_all
  | lapse hs =>
    have hrev := ha.unsettled (by simp [hs])
    have hw := ha.reserved hs
    constructor <;> simp_all [settledWith, stopEvidence, neverDispatchedAt]
  | stop hc hst =>
    exact {
      reservation := rfl
      ordinal := rfl
      claimID := fun _ => rfl
      claimedAt := fun _ => rfl
      dispatchedAt := fun _ => rfl
      taken := fun hs => hs
      absorbing := fun hs => ⟨hs, rfl, rfl, rfl⟩
      observation := fun o ho => ⟨o, ho, rfl⟩
      stopKept := fun hs => absurd hst hs
      stopFixed := fun _ hs => absurd hst hs
      revision := by
        simp only [stopped]
        split <;> omega
      stopRevised := fun hs _ _ => by
        simp only [stopped, hs, if_true]
        omega }

/-- **Rows only move forward.** Along every run of the ledger a stored row
stays stored, in a later version. -/
theorem later_of_run (hr : (ledger size).Reach db) (h : (ledger size).Run db db')
    (ha : db.attempts.get? id = some a) : ∃ a', db'.attempts.get? id = some a' ∧ a.Later a' := by
  refine System.Run.respects
    (R := fun db db' => ∀ id a, db.attempts.get? id = some a →
      ∃ a', db'.attempts.get? id = some a' ∧ a.Later a') ?_ ?_ ?_ hr h id a ha
  · intro db id a ha
    exact ⟨a, ha, .refl a⟩
  · intro db₁ db₂ db₃ h₁₂ h₂₃ id a ha
    obtain ⟨b, hb, hab⟩ := h₁₂ id a ha
    obtain ⟨c, hc, hbc⟩ := h₂₃ id b hb
    exact ⟨c, hc, hab.trans hbc⟩
  · rintro db db' hr ⟨op, c, hexec⟩ id a ha
    rcases (Op.exec_effect hexec).row id with h | ⟨hnone, -⟩ | ⟨b, b', hb, hb', hstep⟩
    · exact ⟨a, h ▸ ha, .refl a⟩
    · rw [ha] at hnone
      cases hnone
    · rw [ha] at hb
      cases hb
      exact ⟨b', hb', hstep.later (wellFormed_of_reach hr ha)⟩

end HardenLlm.Batch
