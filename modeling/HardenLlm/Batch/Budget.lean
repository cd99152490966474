import HardenLlm.Batch.Owners
/-!
# The dispatch budget

An item's `attempts` column is a count kept by hand: a dispatch raises it,
and settling as never dispatched gives one back if it had been raised. The
count is of the item's attempt rows that were dispatched and not settled
as never dispatched, and it stays within the budget of sixteen because an
item is only ever opened again with room for one more.
-/

namespace HardenLlm.Batch

open Attempt Option

variable {size : AttemptObservation → ℕ} {db db' : DB} {ref : Ref} {i : ItemRow} {a : Attempt}

/-- The row was settled as never dispatched. -/
def Attempt.refunded (a : Attempt) : Bool :=
  a.state = .settled && a.observation.any fun o => o.outcome.kind = .neverDispatched

/-- **The rows an item is charged for.** -/
def Attempt.charges (ref : Ref) (a : Attempt) : Bool :=
  a.kind = .job && a.ref = ref && a.dispatchedAt.isSome && !a.refunded

/-- The dispatches an item is charged for. -/
def charged (db : DB) (ref : Ref) : ℕ := db.attempts.count (charges ref)

/-! ## Verdicts and the count -/

/-- A verdict gives back the attempt of a dispatched row that never
reached the provider, and no other. -/
theorem itemVerdict_attempts (out : Outcome) (n : ℤ) (d : Bool) (deadline now : ℤ) :
    (itemVerdict out n d deadline now).2.2
      = if out.kind = .neverDispatched ∧ d = true then max 0 (n - 1) else n := by
  unfold itemVerdict
  split
  · rename_i h
    simp [h]
  · rename_i h
    split <;> simp [h]
  · rename_i h
    dsimp only
    split <;> simp [h]
  · rename_i h
    rw [if_neg fun hc => h hc.1]

/-- An item is opened again only by a refusal within its budget or by an
attempt that was never sent. -/
theorem itemVerdict_open {out : Outcome} {n : ℤ} {d : Bool} {deadline now : ℤ}
    (h : (itemVerdict out n d deadline now).1.open = true) :
    (out.kind = .rejected ∧ n < 16 ∨ out.kind = .neverDispatched) ∧ now < deadline := by
  unfold itemVerdict at h
  split at h
  · simp [ItemState.open] at h
  · rename_i hk
    split at h
    · dsimp only at h
      split at h
      · exact ⟨.inl ⟨hk, ‹_›⟩, ‹_›⟩
      · simp [ItemState.open] at h
    · simp [ItemState.open] at h
  · rename_i hk
    dsimp only at h
    split at h
    · exact ⟨.inr hk, ‹_›⟩
    · simp [ItemState.open] at h
  · simp [ItemState.open] at h

/-! ## The invariant -/

/-- **The budget invariant.** Beside the count and its bounds, an item
whose permit is not dispatched yet still has room for that dispatch. -/
structure Budgeted (db : DB) : Prop where
  owned : ∀ p a, db.attempts.get? p = some a → a.kind = .job → ∃ i, db.items.get? a.ref = some i
  counted : ∀ ref i, db.items.get? ref = some i → i.attempts = charged db ref
  bound : ∀ ref i, db.items.get? ref = some i → i.attempts ≤ 16
  openBound : ∀ ref i, db.items.get? ref = some i → i.state.open = true → i.attempts ≤ 15
  undispatched : ∀ ref i p a, db.items.get? ref = some i → i.currentPermit = some p →
    db.attempts.get? p = some a → a.dispatchedAt = none → i.attempts ≤ 15

/-- An ordinary attempt is charged to nobody. -/
theorem charges_ordinary (hk : a.kind = .ordinary) (ref : Ref) : charges ref a = false := by
  simp [charges, hk]

/-- What the budget says of one item. -/
structure ItemBudget (db : DB) (ref : Ref) (i : ItemRow) : Prop where
  counted : i.attempts = charged db ref
  bound : i.attempts ≤ 16
  openBound : i.state.open = true → i.attempts ≤ 15
  undispatched : ∀ p a, i.currentPermit = some p → db.attempts.get? p = some a →
    a.dispatchedAt = none → i.attempts ≤ 15

theorem budgeted_of_items (hN : Numbered db)
    (h : ∀ ref i, db.items.get? ref = some i → ItemBudget db ref i) : Budgeted db where
  owned p a ha hk := by
    obtain ⟨i, hi, -⟩ := hN.rows p a ha hk
    exact ⟨i, hi⟩
  counted ref i hi := (h ref i hi).counted
  bound ref i hi := (h ref i hi).bound
  openBound ref i hi := (h ref i hi).openBound
  undispatched ref i p a hi := (h ref i hi).undispatched p a

/-- The permits that items held and that are not dispatched were not
dispatched before. -/
def Undispatched (db db' : DB) : Prop :=
  ∀ ref i p a', db.items.get? ref = some i → i.currentPermit = some p →
    db'.attempts.get? p = some a' → a'.dispatchedAt = none →
    ∃ a, db.attempts.get? p = some a ∧ a.dispatchedAt = none

variable {c : Clock} {a' : Attempt} {i' : ItemRow} {id : String}

theorem RowStep.undispatched (h : RowStep size a a') (hd : a'.dispatchedAt = none) :
    a.dispatchedAt = none := by
  cases h with
  | dispatch => cases hd
  | claim | stage | settle | lapse | stop => exact hd

theorem Effect.undispatched {op : Op} (h : Effect size c db db' op)
    (hL : Leased (holder db) (lease db)) : Undispatched db db' := by
  intro ref i p a' hi hp ha' hd
  -- a permit an item holds has a row, so it is not a new one
  obtain ⟨a, ha, -⟩ := lease_eq_some.1 ((hL ref p).1 (holder_eq_some.2 ⟨i, hi, hp⟩))
  refine ⟨a, ha, ?_⟩
  obtain hsame | ⟨hnone, -⟩ | ⟨b, b', hb, hb', hstep⟩ := h.row p
  · obtain rfl := Option.some.inj (ha.symm.trans (hsame.symm.trans ha'))
    exact hd
  · simp [ha] at hnone
  · obtain rfl := mem_unique ha hb
    obtain rfl := mem_unique ha' hb'
    exact hstep.undispatched hd

/-- An item that keeps its count and its permit, or was open when it took
one, keeps its budget under the same charge. -/
theorem Budgeted.kept (hB : Budgeted db) (hU : Undispatched db db')
    (hcharge : charged db' ref = charged db ref) (hi : db.items.get? ref = some i)
    (hn : i'.attempts = i.attempts) (ho : i'.state.open = true → i.state.open = true)
    (hp : i'.currentPermit = i.currentPermit ∨ i.state.open = true) : ItemBudget db' ref i' where
  counted := by rw [hn, hcharge, hB.counted ref i hi]
  bound := hn ▸ hB.bound ref i hi
  openBound h := hn ▸ hB.openBound ref i hi (ho h)
  undispatched p a' hcur ha' hd := by
    rw [hn]
    obtain hsame | hopen := hp
    · obtain ⟨a, ha, hund⟩ := hU ref i p a' hi (hsame ▸ hcur) ha' hd
      exact hB.undispatched ref i p a hi (hsame ▸ hcur) ha hund
    · exact hB.openBound ref i hi hopen

/-- A row that keeps what it is charged for. -/
theorem charged_replaces (h : db.attempts.Replaces db'.attempts id a a')
    (hsame : ∀ ref, charges ref a' = charges ref a) (ref : Ref) :
    charged db' ref = charged db ref := by
  have := h.count (charges ref)
  rw [hsame] at this
  exact Nat.add_right_cancel this

/-- A new row that nobody is charged for. -/
theorem charged_adds (h : db.attempts.Adds db'.attempts a) (hd : a.dispatchedAt = none) (ref : Ref) :
    charged db' ref = charged db ref := by
  have := h.count (charges ref)
  simpa [charged, charges, hd] using this

/-- **A dispatch is charged once.** -/
theorem Budgeted.dispatch {nonce : String} (hB : Budgeted db) (hU : Undispatched db db')
    (hk : a.kind = .job) (h : DispatchCommits db id nonce c a a' db')
    (hi' : db'.items.get? ref = some i') : ItemBudget db' ref i' := by
  have hitem := h.item
  simp only [CountsDispatch, hk] at hitem
  obtain ⟨i, hrep, hcur, hact, hbud⟩ := hitem
  have hrow : a'.kind = .job ∧ a'.ref = a.ref ∧ a'.dispatchedAt = some (micro c.now)
      ∧ a'.refunded = false := by
    rw [h.row]
    exact ⟨hk, rfl, rfl, by simp [refunded, dispatched, h.dispatching]⟩
  have hcharge : charged db' ref = charged db ref + if ref = a.ref then 1 else 0 := by
    have hcount := h.attempts.count (charges ref)
    simp only [charges, hk, hrow, h.undispatched, isSome_none, isSome_some,
      Bool.and_false, Bool.false_and, Bool.not_false, Bool.and_true, decide_true, Bool.true_and,
      decide_eq_true_eq, Bool.false_eq_true, if_false, Nat.add_zero] at hcount
    simp only [charged, eq_comm (a := ref)]
    exact hcount
  by_cases hr : ref = a.ref
  · subst hr
    rw [if_pos rfl] at hcharge
    have hcounted := hB.counted a.ref i hrep.old
    obtain rfl := mem_unique hrep.get_self hi'
    refine ⟨?_, ?_, ?_, ?_⟩
    · simp only
      omega
    · simp only
      omega
    · intro hopen
      simp [hact, ItemState.open] at hopen
    · -- its one permit is the one that was dispatched
      intro p b hp hb hbd
      obtain rfl : a.permitID = p := mem_unique hcur hp
      have hid := permitID_of_get? h.attempts.old
      obtain rfl := Option.some.inj (h.attempts.get_self.symm.trans (hid ▸ hb))
      rw [hrow.2.2.1] at hbd
      cases hbd
  · rw [if_neg hr] at hcharge
    exact hB.kept hU hcharge ((hrep.get_ne hr).symm.trans hi') rfl (fun h => h) (.inl rfl)

/-- What settling moves the charge of a reference by. -/
theorem charged_settle {o : AttemptObservation} (h : SettleCommits db id c o a a' db') (ref : Ref) :
    charged db' ref
        + (if a.kind = .job ∧ a.ref = ref ∧ a.dispatchedAt.isSome = true
            ∧ o.outcome.kind = .neverDispatched then 1 else 0)
      = charged db ref := by
  have hcount := h.attempts.count (charges ref)
  have hbefore : charges ref a
      = decide (a.kind = .job ∧ a.ref = ref ∧ a.dispatchedAt.isSome = true) := by
    simp [charges, refunded, h.unsettled, Bool.and_assoc]
  have hafter : charges ref a'
      = (decide (a.kind = .job ∧ a.ref = ref ∧ a.dispatchedAt.isSome = true)
          && !decide (o.outcome.kind = .neverDispatched)) := by
    rw [h.row]
    change (decide (a.kind = .job) && decide (a.ref = ref) && a.dispatchedAt.isSome
      && !(true && decide (o.outcome.kind = .neverDispatched))) = _
    simp [Bool.and_assoc]
  rw [hbefore, hafter] at hcount
  simp only [charged]
  by_cases hc : a.kind = .job ∧ a.ref = ref ∧ a.dispatchedAt.isSome = true
  · by_cases hn : o.outcome.kind = .neverDispatched
    · rw [if_pos ⟨hc.1, hc.2.1, hc.2.2, hn⟩]
      simpa [hc, hn] using hcount
    · rw [if_neg fun h => hn h.2.2.2]
      simpa [hc, hn] using hcount
  · rw [if_neg fun h => hc ⟨h.1, h.2.1, h.2.2.1⟩]
    simpa [hc] using hcount

/-- **A settlement gives back what never reached the provider**, and
reopens an item only with room for another dispatch. -/
theorem Budgeted.settle {o : AttemptObservation} (hB : Budgeted db) (hU : Undispatched db db')
    (h : SettleCommits db id c o a a' db') (hi' : db'.items.get? ref = some i') :
    ItemBudget db' ref i' := by
  have hid := permitID_of_get? h.attempts.old
  have hcharge := charged_settle h ref
  have hrel := h.owner
  cases hk : a.kind with
  | ordinary =>
    simp only [Releases, hk] at hrel
    rw [if_neg fun hc => by simp [hk] at hc] at hcharge
    exact hB.kept hU hcharge (hrel.1 ▸ hi') rfl (fun h => h) (.inl rfl)
  | job =>
    simp only [Releases, hk] at hrel
    obtain ⟨-, i, j, hrep, -, hcur, -⟩ := hrel
    by_cases hr : ref = a.ref
    · subst hr
      obtain rfl := mem_unique hrep.get_self hi'
      have hcounted := hB.counted a.ref i hrep.old
      have hbound := hB.bound a.ref i hrep.old
      -- the item's own count, before and after the verdict
      have hattempts : (i.settledBy a o j.deadline c).attempts
          = if o.outcome.kind = .neverDispatched ∧ a.dispatchedAt.isSome = true
            then max 0 (i.attempts - 1) else i.attempts := itemVerdict_attempts ..
      simp only [hk, true_and] at hcharge
      have hsettled : (i.settledBy a o j.deadline c).attempts = charged db' a.ref := by
        rw [hattempts]
        by_cases hn : o.outcome.kind = .neverDispatched ∧ a.dispatchedAt.isSome = true
        · rw [if_pos hn]
          rw [if_pos ⟨hn.2, hn.1⟩] at hcharge
          omega
        · rw [if_neg hn]
          rw [if_neg fun hc => hn ⟨hc.2, hc.1⟩] at hcharge
          omega
      have hle : (i.settledBy a o j.deadline c).attempts ≤ i.attempts := by
        rw [hsettled, hcounted]
        omega
      refine ⟨hsettled, by omega, ?_, fun _ _ hp => by cases hp⟩
      intro hopen
      obtain ⟨⟨-, hlt⟩ | hn, -⟩ := itemVerdict_open hopen
      · omega
      · -- never sent: refunded if it was charged, and otherwise it still had room
        cases hd : a.dispatchedAt with
        | none =>
          have := hB.undispatched a.ref i id a hrep.old (hid ▸ hcur) h.attempts.old hd
          omega
        | some =>
          rw [hattempts, if_pos ⟨hn, by simp [hd]⟩]
          omega
    · rw [if_neg fun hc => hr hc.2.1.symm] at hcharge
      exact hB.kept hU hcharge ((hrep.get_ne hr).symm.trans hi') rfl (fun h => h) (.inl rfl)

/-- A new item is charged for nothing: no attempt can name an item that
did not exist. -/
theorem Budgeted.fresh (hB : Budgeted db) (hattempts : db'.attempts = db.attempts)
    (hnone : db.items.get? ref = none) (h : i.Fresh) : ItemBudget db' ref i := by
  have hzero : db.attempts.count (charges ref) = 0 := by
    refine Table.count_eq_zero.2 fun a ha => ?_
    by_contra hc
    simp only [Bool.not_eq_false, charges, Bool.and_eq_true, decide_eq_true_eq] at hc
    obtain ⟨i', hi'⟩ := hB.owned a.permitID a (Table.get?_of_mem ha) hc.1.1.1
    rw [hc.1.1.2, hnone] at hi'
    cases hi'
  constructor <;> simp [h.unattempted, charged, hattempts, hzero]

/-- **Every transaction keeps the budget.** -/
theorem Effect.budgeted {op : Op} (hr : (ledger size).Reach db)
    (h : Effect size c db db' op) (hB : Budgeted db) : Budgeted db' := by
  have hU := h.undispatched (leased_of_reach hr)
  have hwf : ∀ {id a}, db.attempts.get? id = some a → a.WellFormed := wellFormed_of_reach hr
  refine budgeted_of_items ((numbered_of_reach hr).effect h) fun ref i' hi' => ?_
  -- a transaction that leaves the items alone, and what they are charged for
  have same : db'.items = db.items → charged db' ref = charged db ref → ItemBudget db' ref i' :=
    fun hitems hcharge => hB.kept hU hcharge (hitems ▸ hi') rfl (fun h => h) (.inl rfl)
  cases h with
  | side h => exact same h.kept.1 (by rw [charged, h.kept.2]; rfl)
  | created h =>
    have hattempts : db'.attempts = db.attempts := by rw [h.frame]
    obtain ⟨hnone, -, b, hb, hnew⟩ | hsame := h.items ref
    · obtain rfl := mem_unique hb hi'
      exact hB.fresh hattempts hnone hnew
    · refine hB.kept hU ?_ (hsame.symm.trans hi') rfl (fun h => h) (.inl rfl)
      rw [charged, hattempts]
      rfl
  | expired hframe hitems =>
    have hattempts : db'.attempts = db.attempts := by rw [hframe]
    rw [hitems] at hi'
    obtain ⟨i, hi, rfl⟩ := map_eq_some_iff.1 hi'
    have hcharge : charged db' ref = charged db ref := by rw [charged, hattempts]; rfl
    split
    · exact hB.kept hU hcharge hi rfl (fun h => by cases h) (.inl rfl)
    · exact hB.kept hU hcharge hi rfl (fun h => h) (.inl rfl)
  | @reservedItem r _ _ _ _ _ _ h =>
    have hcharge := charged_adds h.attempts (by rw [h.row]; rfl) ref
    by_cases href : ref = r.ref
    · subst href
      obtain rfl := mem_unique h.items.get_self hi'
      exact hB.kept hU hcharge h.items.old rfl (fun h => by cases h) (.inr h.isOpen)
    · exact hB.kept hU hcharge ((h.items.get_ne href).symm.trans hi') rfl (fun h => h) (.inl rfl)
  | reservedRequest _ _ _ h =>
    refine same (by rw [h.frame]) (charged_adds h.attempts ?_ ref)
    rw [h.row, Reservation.requestRow]
    split <;> rfl
  | @claimed _ _ a a' h =>
    -- a reserved row was not dispatched, and the claim does not dispatch it
    have hund := ((hwf h.attempts.old).unclaimed h.unclaimed).2
    have hund' : a'.dispatchedAt = none := by rw [h.row]; exact hund
    refine same (by rw [h.frame]) (charged_replaces h.attempts (fun ref => ?_) ref)
    simp only [charges, hund, hund', isSome_none, Bool.and_false, Bool.false_and]
  | @dispatched _ _ a a' h =>
    cases hk : a.kind with
    | job => exact hB.dispatch hU hk h hi'
    | ordinary =>
      have hitem := h.item
      simp only [CountsDispatch, hk] at hitem
      have hk' : a'.kind = .ordinary := by rw [h.row]; exact hk
      refine same hitem (charged_replaces h.attempts (fun ref => ?_) ref)
      rw [charges_ordinary hk, charges_ordinary hk']
  | @staged _ _ a o _ _ _ hob h hframe =>
    refine same (by rw [hframe]) (charged_replaces h (fun ref => ?_) ref)
    have hns : a.state ≠ .settled := fun hs => ((hwf h.old).settled hs).1 hob
    have hns' : (a.staged o).state ≠ .settled := hns
    have hsame : (a.staged o).refunded = a.refunded := by
      rw [refunded, decide_eq_false hns', refunded, decide_eq_false hns]
      rfl
    simp only [charges, hsame]
    rfl
  | settled _ _ _ _ h | lapsed _ _ h => exact hB.settle hU h hi'
  | stopped _ _ _ h hframe =>
    exact same (by rw [hframe]) (charged_replaces h (fun _ => rfl) ref)

theorem budgeted_of_reach (hr : (ledger size).Reach db) : Budgeted db := by
  refine System.Reach.invariant (P := Budgeted) ?_ ?_ hr
  · rintro db rfl
    constructor <;> simp [DB.empty]
  · rintro db db' hr hB ⟨op, c, hexec⟩
    exact (Op.exec_effect hexec).budgeted hr hB

/-- **Dispatch budget accounting.** An item's attempts are its rows
dispatched and not settled as never dispatched; there are never more than
sixteen, and at most fifteen while the item is queued or waiting, so the
budget test of a dispatch passes for every current permit that is not
dispatched yet. -/
theorem dispatch_budget (hr : (ledger size).Reach db) (hi : db.items.get? ref = some i) :
    i.attempts = db.attempts.count (charges ref)
      ∧ i.attempts ≤ 16
      ∧ (i.state = .queued ∨ i.state = .waiting → i.attempts ≤ 15)
      ∧ ∀ p a, i.state = .active → i.currentPermit = some p → db.attempts.get? p = some a →
          a.dispatchedAt = none → i.attempts < 16 ∧ ∃ db', countDispatch db a = .ok db' := by
  have hB := budgeted_of_reach hr
  refine ⟨hB.counted ref i hi, hB.bound ref i hi, ?_, ?_⟩
  · rintro (hs | hs) <;> exact hB.openBound ref i hi (by rw [hs]; rfl)
  · intro p a hact hp ha hd
    have hroom := hB.undispatched ref i p a hi hp ha hd
    have hlt : i.attempts < 16 := by omega
    obtain ⟨b, hb, hk, -, href⟩ :=
      lease_eq_some.1 ((leased_of_reach hr ref p).1 (holder_eq_some.2 ⟨i, hi, hp⟩))
    rw [ha] at hb
    cases hb
    have hid := permitID_of_get? ha
    refine ⟨hlt, ?_⟩
    simp only [countDispatch, hk]
    rw [found_bind_of_some (href ▸ hi), require_bind_of_pos ⟨hid ▸ hp, hact, hlt⟩]
    exact ⟨_, rfl⟩

/-- The sample's item, charged for its one dispatch. -/
theorem dispatch_budget_sample :
    ∃ (db : DB) (i : ItemRow), (ledger Sample.size).Reach db ∧ db.items.get? Sample.ref = some i
      ∧ i.attempts = 1 ∧ db.attempts.count (charges Sample.ref) = 1 := by
  have h : Leads Sample.size Sample.dispatched .empty
      fun db => ∃ i ∈ db.items.get? Sample.ref, i.attempts = 1 := by
    decide +kernel
  obtain ⟨db, hreach, i, hi, hone⟩ := h.reach
  have hcount := (dispatch_budget hreach hi).1
  exact ⟨db, i, hreach, hi, hone, by omega⟩

end HardenLlm.Batch
