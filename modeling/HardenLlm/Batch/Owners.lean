import HardenLlm.Batch.Coupling
/-!
# Jobs and waiting requests

The rows that own permits. A job keeps its deadline, and its pool once it
has one. A waiting request is a small automaton of its own: it is refreshed
and closed, and takes one permit, whose row it names for ever.
-/

namespace HardenLlm.Batch

open Option

variable {size : AttemptObservation → ℕ} {db db' : DB} {c : Clock} {op : Op} {id : String}

/-! ## Jobs -/

/-- Every job of the database is still there, with its deadline and with
the pool that owns it. -/
def JobsKept (db db' : DB) : Prop :=
  ∀ k j, db.jobs.get? k = some j →
    ∃ j', db'.jobs.get? k = some j' ∧ j'.deadline = j.deadline
      ∧ (j.poolID ≠ "" → j'.poolID = j.poolID)

theorem JobsKept.of_eq (h : db'.jobs = db.jobs) : JobsKept db db' :=
  fun _ j hj => ⟨j, by rw [h]; exact hj, rfl, fun _ => rfl⟩

/-- A pool taking over a job changes nothing else in its row. -/
theorem JobsKept.of_replaces {k : String × String} {j : JobRow} {pool : String}
    (hfree : j.poolID = "" ∨ j.poolID = pool)
    (h : db.jobs.Replaces db'.jobs k j { j with poolID := pool }) : JobsKept db db' := by
  intro k' j' hj'
  by_cases hk : k' = k
  · subst hk
    obtain rfl := mem_unique h.old hj'
    exact ⟨_, h.get_self, rfl, fun hne => (hfree.resolve_left hne).symm⟩
  · exact ⟨j', (h.get_ne hk).trans hj', rfl, fun _ => rfl⟩

/-- A reservation takes over the job of its item, if no pool had. -/
theorem ReserveItemCommits.jobsKept {r : Reservation} {i : ItemRow} {j : JobRow} {a : Attempt}
    (h : ReserveItemCommits db r i j a db') : JobsKept db db' := by
  intro k j' hj'
  rw [h.jobs]
  by_cases hk : k = r.ref.job
  · subst hk
    rw [if_pos rfl, hj', map_some]
    refine ⟨_, rfl, ?_, fun hne => by rw [if_neg hne]⟩
    split <;> rfl
  · rw [if_neg hk]
    exact ⟨j', hj', rfl, fun _ => rfl⟩

/-- **No transaction drops a job, moves its deadline or hands it to another
pool.** -/
theorem Effect.jobs (h : Effect size c db db' op) : JobsKept db db' := by
  cases h with
  | side h =>
    cases h with
    | same h => exact .of_eq (by rw [h])
    | attached hfree hjobs => exact .of_replaces hfree hjobs
    | marked _ hframe | enqueued _ _ hframe | refreshed _ hframe | cancelled _ hframe =>
      exact .of_eq (by rw [hframe])
  | created h => exact fun k j hj => ⟨j, h.jobs.get_of_get? hj, rfl, fun _ => rfl⟩
  | reservedItem _ _ _ h => exact h.jobsKept
  | reservedRequest _ _ _ h | claimed h | dispatched h | settled _ _ _ _ h | lapsed _ _ h =>
    exact .of_eq (by rw [h.frame])
  | expired hframe _ | staged _ _ _ _ _ hframe | stopped _ _ _ _ hframe =>
    exact .of_eq (by rw [hframe])

/-! ## The life of a waiting request -/

/-- **The steps of a waiter's row.** -/
inductive WaiterStep (w : RequestWaiter) : RequestWaiter → Prop
  | refresh (until_ : ℤ) : WaiterStep w { w with liveUntil := until_ }
  | close (t : ℤ) : WaiterStep w { w with closedAt := w.closedAt.or (some t) }
  | grant (permit : String) (lapsed : Bool) (now : ℤ) (free : w.permitID = "") :
      WaiterStep w (w.granted permit lapsed now)

/-- This step added the row of a permit for the request. -/
def PermitAdded (db db' : DB) (id permit : String) : Prop :=
  db.attempts.get? permit = none
    ∧ ∃ a, db'.attempts.get? permit = some a ∧ a.kind = .ordinary ∧ a.requestID = id

/-- The row of a request stayed, was enqueued, or took one step, to a new
permit only together with the permit's row. -/
def WaiterMoves (db db' : DB) (id : String) : Prop :=
  db'.waiters.get? id = db.waiters.get? id
    ∨ (db.waiters.get? id = none ∧ ∃ (w : RequestWaiter) (now : ℤ), 1 ≤ w.ordinal
        ∧ db'.waiters.get? id = some (w.enqueued now))
    ∨ ∃ w w', db.waiters.get? id = some w ∧ db'.waiters.get? id = some w' ∧ WaiterStep w w'
        ∧ (w'.permitID = w.permitID ∨ PermitAdded db db' id w'.permitID)

theorem WaiterMoves.of_replaces {k : String} {w w' : RequestWaiter}
    (h : db.waiters.Replaces db'.waiters k w w') (hstep : WaiterStep w w')
    (hp : w'.permitID = w.permitID ∨ PermitAdded db db' k w'.permitID) (id : String) :
    WaiterMoves db db' id := by
  by_cases hk : id = k
  · subst hk
    exact .inr (.inr ⟨w, w', h.old, h.get_self, hstep, hp⟩)
  · exact .inl (h.get_ne hk)

/-- The waiter of a settled ordinary attempt is closed. -/
theorem WaiterMoves.of_releases {a : Attempt} {o : AttemptObservation} (h : Releases db db' a o c)
    (id : String) : WaiterMoves db db' id := by
  cases hk : a.kind with
  | job =>
    simp only [Releases, hk] at h
    exact .inl (by rw [h.1])
  | ordinary =>
    simp only [Releases, hk] at h
    have hget := h.2 id
    by_cases hid : id = a.requestID
    · subst hid
      rw [if_pos rfl] at hget
      cases hw : db.waiters.get? a.requestID with
      | none => exact .inl (by rw [hget, hw]; rfl)
      | some w =>
        rw [hw, map_some] at hget
        by_cases hp : w.permitID = a.permitID
        · rw [if_pos hp] at hget
          exact .inr (.inr ⟨w, _, hw, hget, .close _, .inl rfl⟩)
        · rw [if_neg hp] at hget
          exact .inl (hget.trans hw.symm)
    · rw [if_neg hid] at hget
      exact .inl hget

/-- **The ledger refines the waiter's automaton.** -/
theorem Effect.waiter (h : Effect size c db db' op) (id : String) : WaiterMoves db db' id := by
  cases h with
  | side h =>
    cases h with
    | same h => exact .inl (by rw [h])
    | attached _ _ hframe | marked _ hframe => exact .inl (by rw [hframe])
    | @enqueued w hord hadds =>
      by_cases hid : id = w.requestID
      · subst hid
        exact .inr (.inl ⟨hadds.free, w, c.now, hord, hadds.get_self⟩)
      · exact .inl (hadds.get_ne hid)
    | refreshed hrep => exact .of_replaces hrep (.refresh _) (.inl rfl) id
    | cancelled hrep => exact .of_replaces hrep (.close _) (.inl rfl) id
  | @reservedRequest r w a _ _ hk h =>
    have hres : a.toReservation = r.stored := by
      rw [h.row, Reservation.requestRow]
      split <;> rfl
    have hid : a.permitID = r.permitID := by rw [hres]; rfl
    have hfree := h.attempts.free
    have hself := h.attempts.get_self
    rw [hid] at hfree hself
    refine .of_replaces h.waiters (.grant _ _ _ h.free) (.inr ⟨hfree, a, hself, ?_⟩) id
    rw [hres]
    exact ⟨hk, rfl⟩
  | settled _ _ _ _ h | lapsed _ _ h => exact .of_releases h.owner id
  | created h | reservedItem _ _ _ h | claimed h | dispatched h => exact .inl (by rw [h.frame])
  | expired hframe _ | staged _ _ _ _ _ hframe | stopped _ _ _ _ hframe =>
    exact .inl (by rw [hframe])

/-! ## What a waiter keeps -/

/-- **`w'` is a later version of the waiter `w`**: the same request, which
keeps its permit and its closing. -/
structure RequestWaiter.Later (w w' : RequestWaiter) : Prop where
  request : w'.poolID = w.poolID ∧ w'.generation = w.generation ∧ w'.scope = w.scope
    ∧ w'.requestID = w.requestID ∧ w'.budgetMS = w.budgetMS ∧ w'.deadline = w.deadline
  ordinal : w'.ordinal = w.ordinal
  permit : w.permitID ≠ "" → w'.permitID = w.permitID
  closed : w.closedAt ≠ none → w'.closedAt ≠ none

theorem RequestWaiter.Later.refl (w : RequestWaiter) : w.Later w :=
  ⟨⟨rfl, rfl, rfl, rfl, rfl, rfl⟩, rfl, fun _ => rfl, id⟩

theorem WaiterStep.later {w w' : RequestWaiter} (h : WaiterStep w w') : w.Later w' := by
  have hor (t : ℤ) : w.closedAt.or (some t) ≠ none := by simp
  cases h with
  | refresh => exact ⟨⟨rfl, rfl, rfl, rfl, rfl, rfl⟩, rfl, fun _ => rfl, id⟩
  | close t => exact ⟨⟨rfl, rfl, rfl, rfl, rfl, rfl⟩, rfl, fun _ => rfl, fun _ => hor t⟩
  | grant permit lapsed now hfree =>
    refine ⟨⟨rfl, rfl, rfl, rfl, rfl, rfl⟩, rfl, fun hne => absurd hfree hne, fun hc => ?_⟩
    unfold RequestWaiter.granted
    dsimp only
    split
    · exact hor _
    · exact hc

/-- **No transaction drops a waiter, reopens one or takes its permit.** -/
theorem Effect.waiterLater {w : RequestWaiter} (h : Effect size c db db' op)
    (hw : db.waiters.get? id = some w) : ∃ w', db'.waiters.get? id = some w' ∧ w.Later w' := by
  obtain hsame | ⟨hnone, -⟩ | ⟨v, v', hv, hv', hstep, -⟩ := h.waiter id
  · exact ⟨w, hsame.trans hw, .refl w⟩
  · rw [hw] at hnone
    cases hnone
  · obtain rfl := mem_unique hw hv
    exact ⟨v', hv', hstep.later⟩

/-- **Waiters and the rows of their permits.** -/
structure Attended (db : DB) : Prop where
  stored : ∀ id w, db.waiters.get? id = some w → 1 ≤ w.ordinal ∧ micro w.deadline = w.deadline
  permits : ∀ id w, db.waiters.get? id = some w → w.permitID ≠ "" →
    ∃ a, db.attempts.get? w.permitID = some a
  rows : ∀ p a, db.attempts.get? p = some a → a.kind = .ordinary →
    a.permitID ≠ "" ∧ ∃ w, db.waiters.get? a.requestID = some w ∧ w.permitID = a.permitID

theorem Attended.effect (hA : Attended db) (h : Effect size c db db' op) : Attended db' := by
  have hrow : ∀ p a, db.attempts.get? p = some a → ∃ a', db'.attempts.get? p = some a' := by
    intro p a ha
    obtain ⟨a', ha', -⟩ := h.reservation ha
    exact ⟨a', ha'⟩
  refine ⟨?_, ?_, ?_⟩
  · intro id w' hw'
    obtain hsame | ⟨-, w, now, hord, hw⟩ | ⟨w, v, hw, hv, hstep, -⟩ := h.waiter id
    · exact hA.stored id w' (hsame ▸ hw')
    · obtain rfl := mem_unique hw hw'
      exact ⟨hord, micro_micro _⟩
    · obtain rfl := mem_unique hv hw'
      have hlater := hstep.later
      rw [hlater.ordinal, hlater.request.2.2.2.2.2]
      exact hA.stored id w hw
  · intro id w' hw' hp
    obtain hsame | ⟨-, w, now, -, hw⟩ | ⟨w, v, hw, hv, -, hsame | hnew⟩ := h.waiter id
    · obtain ⟨a, ha⟩ := hA.permits id w' (hsame ▸ hw') hp
      exact hrow _ a ha
    · obtain rfl := mem_unique hw hw'
      exact absurd rfl hp
    · obtain rfl := mem_unique hv hw'
      rw [hsame] at hp ⊢
      obtain ⟨a, ha⟩ := hA.permits id w hw hp
      exact hrow _ a ha
    · obtain rfl := mem_unique hv hw'
      obtain ⟨-, a, ha, -⟩ := hnew
      exact ⟨a, ha⟩
  · intro p a' ha' hk
    obtain ⟨a, ha, hres, -⟩ | ⟨r, -, hwf, -, hres, ⟨i, j, hkind, -⟩ | ⟨w, -, hcommit⟩⟩ :=
      h.origin ha'
    · -- an old row: its waiter keeps the permit
      rw [hres] at hk ⊢
      obtain ⟨hne, w, hw, hp⟩ := hA.rows p a ha hk
      obtain ⟨w', hw', hlater⟩ := h.waiterLater hw
      exact ⟨hne, w', hw', (hlater.permit (hp ▸ hne)).trans hp⟩
    · rw [hres] at hk
      have : r.kind = .ordinary := hk
      rw [hkind] at this
      cases this
    · rw [hres]
      exact ⟨validPermitID_ne_empty hwf.1, _, hcommit.waiters.get_self, rfl⟩

theorem attended_of_reach (hr : (ledger size).Reach db) : Attended db := by
  refine hr.invariant (P := Attended) ?_ ?_
  · rintro db rfl
    refine ⟨?_, ?_, ?_⟩
    · intro id w hw
      cases hw
    · intro id w hw
      cases hw
    · intro p a ha
      cases ha
  · rintro db db' - hA ⟨op, c, hexec⟩
    exact hA.effect (Op.exec_effect hexec)

/-- An item that waits for `SelectReady`, or for `Expire`. -/
def ItemRow.Idle (i : ItemRow) : Prop := i.state.open = true ∧ i.currentPermit = none

/-! ## Reservations of an item are numbered -/

/-- An item keeps its request and counts its reservations. -/
theorem Effect.itemLater {ref : Ref} {i : ItemRow} (h : Effect size c db db' op)
    (hi : db.items.get? ref = some i) :
    ∃ i', db'.items.get? ref = some i' ∧ i'.request = i.request
      ∧ i.reservationOrdinal ≤ i'.reservationOrdinal := by
  obtain hsame | ⟨hnone, -⟩ | ⟨b, b', hb, hb', hstep⟩ := h.item ref
  · exact ⟨i, hsame.trans hi, rfl, Int.le_refl _⟩
  · rw [hi] at hnone
    cases hnone
  · obtain rfl := mem_unique hi hb
    refine ⟨b', hb', ?_⟩
    cases hstep with
    | reserve => exact ⟨rfl, Int.le.intro 1 rfl⟩
    | expire | dispatch | settle => exact ⟨rfl, Int.le_refl _⟩

/-- **A job row's ordinal is one its item has counted.** -/
structure Numbered (db : DB) : Prop where
  items : ∀ ref i, db.items.get? ref = some i → 0 ≤ i.reservationOrdinal
  rows : ∀ p a, db.attempts.get? p = some a → a.kind = .job →
    ∃ i, db.items.get? a.ref = some i ∧ a.ordinal ≤ i.reservationOrdinal

theorem Numbered.effect (hN : Numbered db) (h : Effect size c db db' op) : Numbered db' := by
  refine ⟨?_, ?_⟩
  · intro ref i' hi'
    obtain hsame | ⟨-, b, hb, hfresh⟩ | ⟨i, b, hi, hb, -⟩ := h.item ref
    · exact hN.items ref i' (hsame ▸ hi')
    · obtain rfl := mem_unique hb hi'
      exact Int.le_of_eq hfresh.unreserved.symm
    · obtain ⟨i'', hi'', -, hle⟩ := h.itemLater hi
      obtain rfl := mem_unique hi' hi''
      exact Int.le_trans (hN.items ref i hi) hle
  · intro p a' ha' hk
    obtain ⟨a, ha, hres, hord⟩ | ⟨r, -, -, -, hres, ⟨i, j, -, hcommit⟩ | ⟨w, hkind, -⟩⟩ :=
      h.origin ha'
    · rw [hres] at hk ⊢
      obtain ⟨i, hi, hle⟩ := hN.rows p a ha hk
      obtain ⟨i', hi', -, hle'⟩ := h.itemLater hi
      exact ⟨i', hi', by omega⟩
    · rw [hres]
      refine ⟨_, hcommit.items.get_self, ?_⟩
      rw [hcommit.row]
      exact Int.le_refl _
    · rw [hres] at hk
      have : r.kind = .job := hk
      rw [hkind] at this
      cases this

theorem numbered_of_reach (hr : (ledger size).Reach db) : Numbered db := by
  refine hr.invariant (P := Numbered) ?_ ?_
  · rintro db rfl
    refine ⟨?_, ?_⟩
    · intro ref i hi
      cases hi
    · intro p a ha
      cases ha
  · rintro db db' - hN ⟨op, c, hexec⟩
    exact hN.effect (Op.exec_effect hexec)

end HardenLlm.Batch
