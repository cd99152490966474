import HardenLlm.Common.Lease
import HardenLlm.Batch.Rows
/-!
# Items and their attempts

An item and the attempt that owns it name each other: the item by its
current permit, the attempt by its reference for as long as it is not
settled. A reservation takes both sides at once and a settlement releases
both, so the two maps stay inverse (`Leased`) through every transaction,
which is what keeps a stale permit from settling an item that a newer one
owns.
-/

namespace HardenLlm.Batch

open Option

variable {size : AttemptObservation → ℕ} {db db' : DB} {ref : Ref} {i i' : ItemRow}

/-! ## The life of an item's row -/

/-- **The steps of an item's row.** -/
inductive ItemStep (i : ItemRow) : ItemRow → Prop
  | expire (running : i.state.terminal = false) (free : i.currentPermit = none) :
      ItemStep i { i with state := .failed, outcome := expiredOutcome }
  | reserve (permit : String) (isOpen : i.state.open = true) (free : i.currentPermit = none) :
      ItemStep i { i with
        currentPermit := some permit
        reservationOrdinal := i.reservationOrdinal + 1
        state := .active }
  | dispatch (active : i.state = .active) (budget : i.attempts < 16) :
      ItemStep i { i with attempts := i.attempts + 1 }
  | settle (a : Attempt) (o : AttemptObservation) (deadline : ℤ) (c : Clock)
      (running : i.state.terminal = false) (current : i.currentPermit = some a.permitID) :
      ItemStep i (i.settledBy a o deadline c)

/-- The row of an item stayed, was created, or took one step. -/
def ItemMoves (db db' : DB) (ref : Ref) : Prop :=
  db'.items.get? ref = db.items.get? ref
    ∨ (db.items.get? ref = none ∧ ∃ i, db'.items.get? ref = some i ∧ i.Fresh)
    ∨ ∃ i i', db.items.get? ref = some i ∧ db'.items.get? ref = some i' ∧ ItemStep i i'

variable {c : Clock} {op : Op}

/-- **The operation that released `a`.** -/
inductive ReleasedBy (c : Clock) (id : String) (a : Attempt) (o : AttemptObservation) : Op → Prop
  | settled {nonce : String} (owned : a.claimID = nonce) (taken : a.state ≠ .reserved) :
      ReleasedBy c id a o (.settleAttempt id nonce o)
  | lapsed (observed : o = neverDispatchedAt c.now) (unclaimed : a.claimID = "") :
      ReleasedBy c id a o (.expireReservation id)

/-- **What a committed operation did to one item.** -/
inductive ItemEffect (c : Clock) (db db' : DB) (ref : Ref) : Op → Prop
  | same {op : Op} (h : db'.items.get? ref = db.items.get? ref) : ItemEffect c db db' ref op
  | created {op : Op} {i : ItemRow} (unsubmitted : db.jobs.get? ref.job = none)
      (absent : db.items.get? ref = none) (new : db'.items.get? ref = some i) (fresh : i.Fresh) :
      ItemEffect c db db' ref op
  | expired {scope id : String} {i : ItemRow} (old : db.items.get? ref = some i)
      (due : i.expirable scope id = true)
      (new : db'.items.get? ref = some { i with state := .failed, outcome := expiredOutcome }) :
      ItemEffect c db db' ref (.expire scope id)
  | reserved {r : Reservation} {i : ItemRow} {j : JobRow} {a : Attempt} (kind : r.kind = .job)
      (item : ref = r.ref) (h : ReserveItemCommits db r i j a db') :
      ItemEffect c db db' ref (.reserveAttempt r)
  | dispatched {op : Op} {i : ItemRow} (old : db.items.get? ref = some i)
      (active : i.state = .active) (budget : i.attempts < 16)
      (new : db'.items.get? ref = some { i with attempts := i.attempts + 1 }) :
      ItemEffect c db db' ref op
  | released {op : Op} {id : String} {o : AttemptObservation} {a a' : Attempt} {i : ItemRow}
      {j : JobRow} (h : SettleCommits db id c o a a' db') (by_ : ReleasedBy c id a o op)
      (kind : a.kind = .job) (item : ref = a.ref) (job : db.jobs.get? a.ref.job = some j)
      (current : i.currentPermit = some a.permitID) (running : i.state.terminal = false)
      (row : db.items.Replaces db'.items a.ref i (i.settledBy a o j.deadline c)) :
      ItemEffect c db db' ref op

theorem SettleCommits.itemEffect {id : String} {o : AttemptObservation} {a a' : Attempt}
    (h : SettleCommits db id c o a a' db') (hby : ReleasedBy c id a o op) (ref : Ref) :
    ItemEffect c db db' ref op := by
  have howner := h.owner
  cases hk : a.kind with
  | ordinary =>
    simp only [Releases, hk] at howner
    exact .same (by rw [howner.1])
  | job =>
    simp only [Releases, hk] at howner
    obtain ⟨-, i, j, hrep, hj, hcur, hrun⟩ := howner
    by_cases href : ref = a.ref
    · exact .released h hby hk href hj hcur hrun hrep
    · exact .same (hrep.get_ne href)

/-- **What each transaction can do to an item.** -/
theorem Effect.itemEffect (h : Effect size c db db' op) (ref : Ref) :
    ItemEffect c db db' ref op := by
  cases h with
  | side h => exact .same (by rw [h.kept.1])
  | created h =>
    obtain ⟨hnone, hjob, i, hi, hnew⟩ | hsame := h.items ref
    · exact .created (hjob ▸ h.jobs.free) hnone hi hnew
    · exact .same hsame
  | @expired scope id _ hitems =>
    cases hi : db.items.get? ref with
    | none => exact .same (by rw [hitems, hi]; rfl)
    | some i =>
      by_cases he : i.expirable scope id = true
      · exact .expired hi he (by rw [hitems, hi, map_some, if_pos he])
      · exact .same (by rw [hitems, hi, map_some, if_neg he])
  | @reservedItem r _ _ _ _ _ hk h =>
    by_cases href : ref = r.ref
    · exact .reserved hk href h
    · exact .same (h.items.get_ne href)
  | reservedRequest _ _ _ h | claimed h => exact .same (by rw [h.frame])
  | @dispatched _ _ a _ h =>
    have hitem := h.item
    cases hk : a.kind with
    | ordinary =>
      simp only [CountsDispatch, hk] at hitem
      exact .same (by rw [hitem])
    | job =>
      simp only [CountsDispatch, hk] at hitem
      obtain ⟨i, hrep, -, hact, hbud⟩ := hitem
      by_cases href : ref = a.ref
      · subst href
        exact .dispatched hrep.old hact hbud hrep.get_self
      · exact .same (hrep.get_ne href)
  | staged _ _ _ _ _ hframe | stopped _ _ _ _ hframe => exact .same (by rw [hframe])
  | settled howned _ htaken _ h => exact h.itemEffect (.settled howned htaken) ref
  | lapsed _ hunclaimed h => exact h.itemEffect (.lapsed rfl hunclaimed) ref

/-- **The ledger refines the item's automaton.** -/
theorem Effect.item (h : Effect size c db db' op) (ref : Ref) : ItemMoves db db' ref := by
  cases h.itemEffect ref with
  | same h => exact .inl h
  | created _ hnone hi hnew => exact .inr (.inl ⟨hnone, _, hi, hnew⟩)
  | expired hi he hi' =>
    simp only [ItemRow.expirable, Bool.and_eq_true, Bool.not_eq_true', decide_eq_true_eq] at he
    exact .inr (.inr ⟨_, _, hi, hi', .expire he.1.2 he.2⟩)
  | reserved _ href hres =>
    subst href
    exact .inr (.inr ⟨_, _, hres.items.old, hres.items.get_self, .reserve _ hres.isOpen hres.free⟩)
  | dispatched hi hact hbud hi' => exact .inr (.inr ⟨_, _, hi, hi', .dispatch hact hbud⟩)
  | released _ _ _ href _ hcur hrun hrep =>
    subst href
    exact .inr (.inr ⟨_, _, hrep.old, hrep.get_self, .settle _ _ _ c hrun hcur⟩)

/-- A verdict never leaves the item active. -/
theorem itemVerdict_ne_active (out : Outcome) (attempts : ℤ) (dispatched : Bool)
    (deadline now : ℤ) : (itemVerdict out attempts dispatched deadline now).1 ≠ .active := by
  unfold itemVerdict
  split
  · simp
  · split
    · dsimp only
      split <;> simp
    · simp
  · dsimp only
    split <;> simp
  · simp

/-- **An item is active exactly while it holds a permit.** -/
theorem active_iff_permit (hr : (ledger size).Reach db) (hi : db.items.get? ref = some i) :
    i.state = .active ↔ i.currentPermit ≠ none := by
  refine System.Reach.invariant
    (P := fun db => ∀ ref i, db.items.get? ref = some i →
      (i.state = .active ↔ i.currentPermit ≠ none)) ?_ ?_ hr ref i hi
  · rintro db rfl ref i h
    cases h
  · rintro db db' - ih ⟨op, c, hexec⟩ ref i hi
    rcases (Op.exec_effect hexec).item ref with h | ⟨-, b, hb, hnew⟩ | ⟨b, b', hb, hb', hstep⟩
    · exact ih ref i (h ▸ hi)
    · rw [hi] at hb
      cases hb
      simp [hnew.queued, hnew.free]
    · rw [hi] at hb'
      cases hb'
      cases hstep with
      | expire _ hfree => simp [hfree]
      | reserve => simp
      | dispatch => exact ih ref b hb
      | settle =>
        simp [ItemRow.settledBy, itemVerdict_ne_active]

/-- No step leaves a terminal state. -/
theorem ItemStep.running (h : ItemStep i i') : i.state.terminal = false := by
  cases h with
  | expire hrun => exact hrun
  | reserve =>
    cases hs : i.state <;> simp_all [ItemState.open, ItemState.terminal]
  | dispatch hact => simp [hact, ItemState.terminal]
  | settle _ _ _ _ hrun => exact hrun

/-- **A terminal item is never written again.** -/
theorem terminal_of_run (hr : (ledger size).Reach db) (h : (ledger size).Run db db')
    (hi : db.items.get? ref = some i) (ht : i.state.terminal = true) :
    db'.items.get? ref = some i := by
  refine System.Run.stable (P := fun db => db.items.get? ref = some i) ?_ hr hi h
  rintro db db' - hi ⟨op, c, hexec⟩
  rcases (Op.exec_effect hexec).item ref with h | ⟨hnone, -⟩ | ⟨b, b', hb, -, hstep⟩
  · rw [h, hi]
  · rw [hi] at hnone
    cases hnone
  · rw [hi] at hb
    cases hb
    rw [hstep.running] at ht
    cases ht

/-! ## Holder and lease -/

/-- The permit an item is held under. -/
def holder (db : DB) : Ref → Option String := db.items.view ItemRow.currentPermit

/-- The item an attempt holds: a job attempt's, until it is settled. -/
def Attempt.lease (a : Attempt) : Option Ref :=
  if a.kind = .job ∧ a.state ≠ .settled then some a.ref else none

/-- The item a permit's attempt holds. -/
def lease (db : DB) : String → Option Ref := db.attempts.view Attempt.lease

variable {p : String}

theorem lease_eq_some :
    lease db p = some ref ↔
      ∃ a, db.attempts.get? p = some a ∧ a.kind = .job ∧ a.state ≠ .settled ∧ a.ref = ref := by
  simp only [lease, Table.view, bind_eq_some_iff, Attempt.lease, ite_none_right_eq_some,
    Option.some.injEq, and_assoc]

theorem holder_eq_some :
    holder db ref = some p ↔ ∃ i, db.items.get? ref = some i ∧ i.currentPermit = some p := by
  simp only [holder, Table.view, bind_eq_some_iff]

/-- Settling a row gives up its lease. -/
theorem Attempt.lease_settledWith (a : Attempt) (o : AttemptObservation) :
    (a.settledWith o).lease = none := by
  simp [Attempt.lease, Attempt.settledWith]

/-- **A settlement releases both sides.** -/
theorem Leased.settle {id : String} {o : AttemptObservation} {a a' : Attempt}
    (hL : Leased (holder db) (lease db)) (h : SettleCommits db id c o a a' db') :
    Leased (holder db') (lease db') := by
  have hid : a.permitID = id := permitID_of_get? h.attempts.old
  have hlease : lease db' = Function.update (lease db) id none := by
    rw [lease, h.attempts.view_eq, h.row, Attempt.lease_settledWith]
    rfl
  have hrel := h.owner
  cases hk : a.kind with
  | ordinary =>
    -- an ordinary attempt held no item, so neither side moves
    simp only [Releases, hk] at hrel
    have hholder : holder db' = holder db := by rw [holder, hrel.1]; rfl
    have hnone : lease db id = none := by
      simp [lease, Table.view, h.attempts.old, Attempt.lease, hk]
    rw [hholder, hlease, ← hnone, Function.update_eq_self]
    exact hL
  | job =>
    simp only [Releases, hk] at hrel
    obtain ⟨-, i, j, hrep, -, hcur, -⟩ := hrel
    have hholder : holder db' = Function.update (holder db) a.ref none := by
      rw [holder, hrep.view_eq]
      rfl
    rw [hholder, hlease, ← hid]
    exact hL.release (holder_eq_some.2 ⟨i, hrep.old, hcur⟩)

/-- **Every transaction keeps holders and leases inverse.** -/
theorem Effect.leased (h : Effect size c db db' op) (hL : Leased (holder db) (lease db)) :
    Leased (holder db') (lease db') := by
  have same : holder db' = holder db → lease db' = lease db → Leased (holder db') (lease db') := by
    intro hholder hlease
    rw [hholder, hlease]
    exact hL
  cases h with
  | side h => exact same (by rw [holder, h.kept.1]; rfl) (by rw [lease, h.kept.2]; rfl)
  | created h =>
    refine same ?_ (by rw [lease, h.frame]; rfl)
    funext ref
    rcases h.items ref with ⟨hnone, -, i, hi, hnew⟩ | hsame
    · simp [holder, Table.view, hnone, hi, hnew.free]
    · simp [holder, Table.view, hsame]
  | expired hframe hitems =>
    refine same ?_ (by rw [lease, hframe]; rfl)
    funext ref
    simp only [holder, Table.view, hitems]
    cases db.items.get? ref with
    | none => rfl
    | some =>
      simp only [map_some, bind_some]
      split <;> rfl
  | @reservedItem r i j a _ _ hk h =>
    have hlease : lease db' = Function.update (lease db) r.permitID (some r.ref) := by
      rw [lease, h.attempts.view_eq, h.row]
      simp [Attempt.lease, Reservation.row, Reservation.stored, hk, lease]
    have hholder : holder db' = Function.update (holder db) r.ref (some r.permitID) := by
      rw [holder, h.items.view_eq]
      rfl
    rw [hholder, hlease]
    refine hL.take ?_ ?_
    · simp [holder, Table.view, h.items.old, h.free]
    · have hfree := h.attempts.free
      rw [h.row] at hfree
      simp only [lease, Table.view]
      rw [show r.permitID = (r.row (i.reservationOrdinal + 1)).permitID from rfl, hfree]
      rfl
  | @reservedRequest r w a _ _ hk h =>
    have hkind : a.kind = .ordinary := by
      rw [h.row, Reservation.requestRow]
      split <;> exact hk
    exact same (by rw [holder, h.frame]; rfl) (h.attempts.view_congr (by simp [Attempt.lease, hkind]))
  | claimed h =>
    refine same (by rw [holder, h.frame]; rfl) (h.attempts.view_congr ?_)
    rw [h.row]
    simp [Attempt.lease, Attempt.claimed, h.reserved]
  | @dispatched _ _ a _ h =>
    refine same ?_ (h.attempts.view_congr (by rw [h.row]; rfl))
    have hitem := h.item
    cases hk : a.kind with
    | ordinary =>
      simp only [CountsDispatch, hk] at hitem
      rw [holder, hitem]
      rfl
    | job =>
      simp only [CountsDispatch, hk] at hitem
      obtain ⟨i, hrep, -⟩ := hitem
      exact hrep.view_congr rfl
  | staged _ _ _ _ h hframe | stopped _ _ _ h hframe =>
    exact same (by rw [holder, hframe]; rfl) (h.view_congr rfl)
  | settled _ _ _ _ h | lapsed _ _ h => exact Leased.settle hL h

/-- **Items and attempts name each other** in every reachable database. -/
theorem leased_of_reach (hr : (ledger size).Reach db) : Leased (holder db) (lease db) := by
  refine System.Reach.invariant (P := fun db => Leased (holder db) (lease db)) ?_ ?_ hr
  · rintro db rfl
    intro ref p
    simp [holder, lease, Table.view, DB.empty]
  · rintro db db' - hL ⟨op, c, hexec⟩
    exact (Op.exec_effect hexec).leased hL

/-! ## One settlement for each permit -/

/-- The operations that settle a permit. -/
def Op.settles (op : Op) (p : String) : Prop :=
  (∃ nonce o, op = .settleAttempt p nonce o) ∨ op = .expireReservation p

/-- A settling operation finds the row settled or leaves it so. -/
theorem Op.settles.settled {op : Op} (h : op.settles p) (hexec : op.exec size c db = .ok db') :
    ∃ a, db'.attempts.get? p = some a ∧ a.state = .settled := by
  rcases h with ⟨nonce, o, rfl⟩ | rfl
  · obtain ⟨a', hexec⟩ := map_snd_eq_ok hexec
    obtain ⟨a, ha, -, -, -, -, -, ⟨hs, -, -, rfl⟩ | ⟨-, -, hset⟩⟩ := settleAttempt_commits hexec
    · exact ⟨a, ha, hs⟩
    · exact ⟨a', hset.attempts.get_self, by rw [hset.row]; rfl⟩
  · obtain ⟨a', hexec⟩ := map_snd_eq_ok hexec
    obtain ⟨a, ha, ⟨hs, -, rfl⟩ | ⟨-, -, -, hset⟩⟩ := expireReservation_commits hexec
    · exact ⟨a, ha, hs⟩
    · exact ⟨a', hset.attempts.get_self, by rw [hset.row]; rfl⟩

/-- On a settled row it changes nothing. -/
theorem Op.settles.unchanged {op : Op} {a : Attempt} (h : op.settles p)
    (hexec : op.exec size c db = .ok db') (ha : db.attempts.get? p = some a)
    (hs : a.state = .settled) : db' = db := by
  rcases h with ⟨nonce, o, rfl⟩ | rfl
  · obtain ⟨a', hexec⟩ := map_snd_eq_ok hexec
    obtain ⟨b, hb, -, -, -, -, -, ⟨-, -, -, hdb⟩ | ⟨-, -, hset⟩⟩ := settleAttempt_commits hexec
    · exact hdb
    · rw [ha] at hb
      cases hb
      exact absurd hs hset.unsettled
  · obtain ⟨a', hexec⟩ := map_snd_eq_ok hexec
    obtain ⟨b, hb, ⟨-, -, hdb⟩ | ⟨hres, -⟩⟩ := expireReservation_commits hexec
    · exact hdb
    · rw [ha] at hb
      cases hb
      rw [hs] at hres
      cases hres

/-- **Item and attempt coupling.** In every reachable database an item is
active exactly while it has a current permit, exactly while it has an
unsettled job attempt, and that attempt is the current permit's alone. A
succeeded or failed item keeps its state and outcome in every run; and once
a permit has been settled, no later settlement of it writes anything. -/
theorem item_attempt_coupling (hr : (ledger size).Reach db) (hi : db.items.get? ref = some i) :
    (i.state = .active ↔ i.currentPermit ≠ none)
      ∧ (i.state = .active ↔ ∃ p a, db.attempts.get? p = some a ∧ a.kind = .job ∧ a.ref = ref
          ∧ a.state ≠ .settled)
      ∧ (∀ p a, db.attempts.get? p = some a → a.kind = .job → a.ref = ref → a.state ≠ .settled →
          i.currentPermit = some p)
      ∧ (∀ db', (ledger size).Run db db' → i.state = .succeeded ∨ i.state = .failed →
          ∃ i', db'.items.get? ref = some i' ∧ i'.state = i.state ∧ i'.outcome = i.outcome)
      ∧ (∀ (p : String) (op : Op) (c : Clock) (db₁ : DB), op.settles p →
          op.exec size c db = .ok db₁ → ∀ db₂, (ledger size).Run db₁ db₂ →
          ∀ (op' : Op) (c' : Clock) (db₃ : DB), op'.settles p → op'.exec size c' db₂ = .ok db₃ →
            db₃.items = db₂.items) := by
  have hL := leased_of_reach hr
  have hactive := active_iff_permit hr hi
  have hcurrent : ∀ p a, db.attempts.get? p = some a → a.kind = .job → a.ref = ref →
      a.state ≠ .settled → i.currentPermit = some p := by
    intro p a ha hk hrefa hs
    obtain ⟨i', hi', hp⟩ :=
      holder_eq_some.1 ((hL ref p).2 (lease_eq_some.2 ⟨a, ha, hk, hs, hrefa⟩))
    rw [hi] at hi'
    cases hi'
    exact hp
  refine ⟨hactive, ?_, hcurrent, ?_, ?_⟩
  · rw [hactive]
    constructor
    · intro hp
      obtain ⟨p, hp⟩ := ne_none_iff_exists'.1 hp
      obtain ⟨a, ha, hk, hs, hrefa⟩ :=
        lease_eq_some.1 ((hL ref p).1 (holder_eq_some.2 ⟨i, hi, hp⟩))
      exact ⟨p, a, ha, hk, hrefa, hs⟩
    · rintro ⟨p, a, ha, hk, hrefa, hs⟩
      simp [hcurrent p a ha hk hrefa hs]
  · intro db' hrun hterm
    refine ⟨i, terminal_of_run hr hrun hi ?_, rfl, rfl⟩
    rcases hterm with h | h <;> simp [h, ItemState.terminal]
  · intro p op c db₁ hop hexec db₂ hrun op' c' db₃ hop' hexec'
    obtain ⟨a, ha, hs⟩ := hop.settled hexec
    have hr₁ : (ledger size).Reach db₁ := .step hr ⟨op, c, hexec⟩
    obtain ⟨a', ha', hl⟩ := later_of_run hr₁ hrun ha
    rw [hop'.unchanged hexec' ha' (hl.absorbing hs).1]

/-- The sample's item while its permit is out. -/
theorem item_attempt_coupling_sample :
    ∃ (db : DB) (i : ItemRow) (p : String) (a : Attempt), (ledger Sample.size).Reach db
      ∧ db.items.get? Sample.ref = some i ∧ i.state = .active
      ∧ db.attempts.get? p = some a ∧ a.ref = Sample.ref ∧ a.state ≠ .settled := by
  have h : Leads Sample.size Sample.dispatched .empty
      fun db => ∃ i ∈ db.items.get? Sample.ref, i.state = .active := by
    decide +kernel
  obtain ⟨db, hreach, i, hi, hact⟩ := h.reach
  obtain ⟨p, a, ha, -, hrefa, hs⟩ := (item_attempt_coupling hreach hi).2.1.1 hact
  exact ⟨db, i, p, a, hreach, hi, hact, ha, hrefa, hs⟩

end HardenLlm.Batch
