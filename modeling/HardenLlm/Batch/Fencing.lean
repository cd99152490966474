import HardenLlm.Batch.Model.Locks
import HardenLlm.Batch.Rows
/-!
# Generation fencing

A pool's marker moves only through its own automaton, and to a new
generation only when nothing of the old one is outstanding. Settlement and
local stop take no guard, but they only ever finish what is outstanding, so
the attempts left behind by a change of generation are all over. Under
locks every step is a step of the ledger: a share lock keeps the marker the
guard read in place until the commit.
-/

namespace HardenLlm.Batch

open Option

variable {size : AttemptObservation → ℕ} {db db' : DB} {id : String} {c : Clock} {a : Attempt}
  {generation : ℤ} {r : Reservation} {call : Call} {s : Locked}

/-! ## Markers -/

/-- **The steps of a pool's marker.** -/
inductive MarkerStep (db : DB) (p p' : PoolGeneration) : Prop
  | quiesce (generation : p'.generation = p.generation)
  | advance (generation : p'.generation = p.generation + 1) (idle : ¬ attemptOutstanding db p.poolID)

/-- The marker of a pool stayed, was added, or took one step. -/
def MarkerMoves (db db' : DB) (pool : String) : Prop :=
  db'.pools.get? pool = db.pools.get? pool ∨ db.pools.get? pool = none
    ∨ ∃ p p', db.pools.get? pool = some p ∧ db'.pools.get? pool = some p' ∧ MarkerStep db p p'

/-- A rewritten marker is the only one that moved. -/
theorem MarkerMoves.of_replaces {k : String} {p p' : PoolGeneration}
    (h : db.pools.Replaces db'.pools k p p') (hstep : MarkerStep db p p') (pool : String) :
    MarkerMoves db db' pool := by
  by_cases hk : pool = k
  · subst hk
    exact .inr (.inr ⟨p, p', h.old, h.get_self, hstep⟩)
  · exact .inl (h.get_ne hk)

theorem quiescePool_markers (h : quiescePool db id generation = .ok db') (pool : String) :
    MarkerMoves db db' pool ∧ (pool ≠ id → db'.pools.get? pool = db.pools.get? pool) := by
  obtain ⟨p, hp, hgen, rfl⟩ := quiescePool_commits h
  by_cases hmode : p.mode = .active
  · have hrep := Table.replaces_modify hp (p := fun m => decide (m.mode = .active)) (by simpa using hmode)
      ⟨fun m => { m with generation := generation, mode := .quiescing, revision := m.revision + 1 },
        fun _ => rfl⟩
    exact ⟨.of_replaces hrep (.quiesce hgen.symm) pool, fun hne => hrep.get_ne hne⟩
  · -- a marker that is quiescing already is not selected
    have hsame := Table.get?_modify_of_not hp (p := fun m => decide (m.mode = .active))
      (by simpa using hmode) ⟨fun m => { m with
        generation := generation, mode := .quiescing, revision := m.revision + 1 }, fun _ => rfl⟩ pool
    exact ⟨.inl hsame, fun _ => hsame⟩

theorem HandsOn.markers (h : HandsOn db id db') (pool : String) :
    MarkerMoves db db' pool ∧ (pool ≠ id → db'.pools.get? pool = db.pools.get? pool) := by
  obtain rfl | ⟨p, generation, hp, hgen, hidle, rfl⟩ := h
  · exact ⟨.inl rfl, fun _ => rfl⟩
  · have hrep := Table.replaces_modify hp (p := fun _ => true) rfl ⟨fun m => { m with
      generation := generation, mode := .active, revision := m.revision + 1 }, fun _ => rfl⟩
    have hkey : p.poolID = id := Table.key_of_get? hp
    exact ⟨.of_replaces hrep (.advance hgen (hkey ▸ hidle)) pool, fun hne => hrep.get_ne hne⟩

/-- **A transaction moves the marker it locks, and no other.** -/
theorem Op.exec_markers {op : Op} (h : op.exec size c db = .ok db') (pool : String) :
    MarkerMoves db db' pool ∧ (op.locks ≠ some pool →
      ∀ p, db.pools.get? pool = some p → db'.pools.get? pool = some p) := by
  -- a marker that is not locked is not written
  have hother : ∀ {k}, (pool ≠ k → db'.pools.get? pool = db.pools.get? pool) →
      some k ≠ some pool → ∀ p, db.pools.get? pool = some p → db'.pools.get? pool = some p :=
    fun hsame hne p hp => (hsame fun hk => hne (hk ▸ rfl)).trans hp
  cases op with
  | ensurePool =>
    obtain rfl | ⟨q, pools, hadds, rfl⟩ := ensurePool_commits h
    · exact ⟨.inl rfl, fun _ p hp => hp⟩
    · refine ⟨?_, fun _ p hp => hadds.get_of_get? hp⟩
      cases hp : db.pools.get? pool with
      | none => exact .inr (.inl hp)
      | some p => exact .inl ((hadds.get_of_get? hp).trans hp.symm)
  | quiescePool => exact (quiescePool_markers h pool).imp_right hother
  | advancePool => exact ((advancePool_commits h).markers pool).imp_right hother
  | adoptLegacyPool =>
    obtain ⟨fence, h⟩ := map_snd_eq_ok h
    exact ((adoptLegacyPool_commits h).markers pool).imp_right hother
  | _ =>
    have hsame := (Op.exec_effect h).pools rfl
    rw [MarkerMoves, hsame]
    exact ⟨.inl rfl, fun _ p hp => hp⟩

/-! ## The ledger is fenced -/

/-- The attempt is not both settled and seen to stop. -/
def Attempt.Outstanding (a : Attempt) : Prop := ¬ (a.state = .settled ∧ a.stoppedAt ≠ none)

/-- **Every outstanding attempt is of its pool's current generation.** -/
def Fenced (db : DB) : Prop :=
  ∀ id a, db.attempts.get? id = some a → a.Outstanding →
    ∃ p, db.pools.get? a.poolID = some p ∧ p.generation = a.generation

/-- A row that is outstanding was outstanding before. -/
theorem Attempt.Later.outstanding {a' : Attempt} (h : a.Later a') (ho : a'.Outstanding) :
    a.Outstanding :=
  fun hdone => ho ⟨(h.absorbing hdone.1).1, h.stopKept hdone.2⟩

theorem Attempt.Outstanding.attemptOutstanding (ha : db.attempts.get? id = some a)
    (ho : a.Outstanding) : attemptOutstanding db a.poolID := by
  refine ⟨a, Table.mem_of_get? ha, rfl, ?_⟩
  by_cases hs : a.state = .settled
  · exact .inr (by_contra fun hst => ho ⟨hs, hst⟩)
  · exact .inl hs

/-- An outstanding attempt pins its pool's generation. -/
theorem Fenced.marker {op : Op} (h : op.exec size c db = .ok db')
    (ha : db.attempts.get? id = some a) (ho : a.Outstanding)
    (hp : ∃ p, db.pools.get? a.poolID = some p ∧ p.generation = a.generation) :
    ∃ p, db'.pools.get? a.poolID = some p ∧ p.generation = a.generation := by
  obtain ⟨p, hget, hgen⟩ := hp
  obtain hsame | hnone | ⟨q, q', hq, hq', hstep⟩ := (Op.exec_markers h a.poolID).1
  · exact ⟨p, hsame.trans hget, hgen⟩
  · rw [hget] at hnone
    exact absurd hnone (by simp)
  · obtain rfl := mem_unique hget hq
    cases hstep with
    | quiesce hg => exact ⟨q', hq', hg.trans hgen⟩
    | advance _ hidle =>
      have hkey : p.poolID = a.poolID := Table.key_of_get? hget
      exact absurd (hkey ▸ ho.attemptOutstanding ha) hidle

theorem fenced_of_reach (hr : (ledger size).Reach db) : Fenced db := by
  refine hr.invariant ?_ ?_
  · rintro db rfl id a ha
    exact absurd ha (by simp [DB.empty])
  · rintro db db' hr ih ⟨op, c, hexec⟩ id a' ha' ho'
    obtain hsame | ⟨-, b, hb, -, p, hp, hgen, -⟩ | ⟨a, b, ha, hb, hstep⟩ :=
      (Op.exec_effect hexec).row id
    · -- untouched: it was outstanding before, under the same marker or a quiesced one
      have ha := hsame ▸ ha'
      exact Fenced.marker hexec ha ho' (ih id a' ha ho')
    · obtain rfl := mem_unique ha' hb
      exact ⟨p, hp, hgen⟩
    · obtain rfl := mem_unique ha' hb
      have hlater := hstep.later (wellFormed_of_reach hr ha)
      have ho := hlater.outstanding ho'
      rw [hlater.reservation]
      exact Fenced.marker hexec ha ho (ih id a ha ho)

/-- **A generation never goes back**, and its marker is never dropped. -/
theorem generation_of_run (hr : (ledger size).Reach db) (h : (ledger size).Run db db')
    {pool : String} {p : PoolGeneration} (hp : db.pools.get? pool = some p) :
    ∃ p', db'.pools.get? pool = some p' ∧ p.generation ≤ p'.generation := by
  refine System.Run.respects (R := fun db db' => ∀ pool p, db.pools.get? pool = some p →
    ∃ p', db'.pools.get? pool = some p' ∧ p.generation ≤ p'.generation) ?_ ?_ ?_ hr h pool p hp
  · exact fun db pool p hp => ⟨p, hp, Int.le_refl _⟩
  · intro db₁ db₂ db₃ h₁₂ h₂₃ pool p hp
    obtain ⟨q, hq, hpq⟩ := h₁₂ pool p hp
    obtain ⟨q', hq', hqq'⟩ := h₂₃ pool q hq
    exact ⟨q', hq', Int.le_trans hpq hqq'⟩
  · rintro db db' - ⟨op, c, hexec⟩ pool p hp
    obtain hsame | hnone | ⟨q, q', hq, hq', hstep⟩ := (Op.exec_markers hexec pool).1
    · exact ⟨p, hsame.trans hp, Int.le_refl _⟩
    · rw [hp] at hnone
      exact absurd hnone (by simp)
    · obtain rfl := mem_unique hp hq
      refine ⟨q', hq', ?_⟩
      cases hstep with
      | quiesce | advance => omega

/-! ## Under locks -/

section Snapshot

variable {nonce : String} {a b : Attempt} {pools : Table PoolGeneration.poolID}

/-- A guard reads one marker. -/
theorem poolAdmits_congr {pool : String} (h : pools.get? pool = db.pools.get? pool) :
    PoolAdmits { db with pools := pools } pool generation ↔ PoolAdmits db pool generation := by
  unfold PoolAdmits
  rw [h]

theorem countDispatch_snapshot (h : countDispatch { db with pools := pools } b = .ok db') :
    countDispatch db b = .ok { db' with pools := db.pools } := by
  unfold countDispatch at h ⊢
  cases hk : b.kind with
  | ordinary =>
    simp only [hk, pure_eq_ok] at h ⊢
    rw [← h]
  | job =>
    simp only [hk, require_seq, found_seq, pure_eq_ok] at h ⊢
    obtain ⟨i, hi, hg, rfl⟩ := h
    exact ⟨i, hi, hg, rfl⟩

section Guarded

variable (hp : ∀ a, db.attempts.get? id = some a → pools.get? a.poolID = db.pools.get? a.poolID)

include hp

theorem claimAttempt_snapshot
    (h : claimAttempt { db with pools := pools } id nonce c = .ok (a, db')) :
    claimAttempt db id nonce c = .ok (a, { db' with pools := db.pools }) := by
  simp only [claimAttempt, readAttempt, bind_eq_ok, require_eq_ok, found_eq_ok, exists_const,
    guardPool_eq_ok, guardRequestClaim_eq_ok, pure_eq_ok, Prod.mk.injEq] at h ⊢
  obtain ⟨hv, b, hb, hs, hg, ho, ht, ha, rfl⟩ := h
  rw [poolAdmits_congr (hp b hb)] at hg
  exact ⟨hv, b, hb, hs, hg, ho, ht, ha, rfl⟩

theorem markDispatch_snapshot
    (h : markDispatch { db with pools := pools } id nonce c = .ok (a, db')) :
    markDispatch db id nonce c = .ok (a, { db' with pools := db.pools }) := by
  simp only [markDispatch, readAttempt, bind_eq_ok, require_eq_ok, found_eq_ok, exists_const,
    guardPool_eq_ok, guardRequestClaim_eq_ok, pure_eq_ok, Prod.mk.injEq] at h ⊢
  obtain ⟨b, hb, hs, hd, hg, ho, ht, db₁, hcount, ha, rfl⟩ := h
  rw [poolAdmits_congr (hp b hb)] at hg
  exact ⟨b, hb, hs, hd, hg, ho, ht, _, countDispatch_snapshot hcount, ha, rfl⟩

theorem confirmAttemptWrite_snapshot {accepts : Attempt → Prop} [DecidablePred accepts]
    (h : confirmAttemptWrite { db with pools := pools } id nonce accepts c = .ok a) :
    confirmAttemptWrite db id nonce accepts c = .ok a := by
  simp only [confirmAttemptWrite, readAttempt, bind_eq_ok, require_eq_ok, found_eq_ok, exists_const,
    guardPool_eq_ok, guardRequestClaim_eq_ok, pure_eq_ok] at h ⊢
  obtain ⟨b, hb, hs, hg, ho, rfl⟩ := h
  rw [poolAdmits_congr (hp b hb)] at hg
  exact ⟨b, hb, hs, hg, ho, rfl⟩

end Guarded

theorem insertAttempt_snapshot (h : insertAttempt { db with pools := pools } b = .ok db') :
    insertAttempt db b = .ok { db' with pools := db.pools } := by
  simp only [insertAttempt, require_seq, found_seq, pure_eq_ok] at h ⊢
  obtain ⟨hclash, t, ht, rfl⟩ := h
  exact ⟨hclash, t, ht, rfl⟩

theorem reserveItem_snapshot (h : reserveItem { db with pools := pools } r = .ok (a, db')) :
    reserveItem db r = .ok (a, { db' with pools := db.pools }) := by
  simp only [reserveItem, bind_eq_ok, require_eq_ok, found_eq_ok, exists_const, pure_eq_ok,
    Prod.mk.injEq] at h ⊢
  obtain ⟨i, hi, j, hj, hsnap, hne, hfree, db₁, hins, ha, rfl⟩ := h
  exact ⟨i, hi, j, hj, hsnap, hne, hfree, _, insertAttempt_snapshot hins, ha, rfl⟩

theorem reserveRequest_snapshot (h : reserveRequest { db with pools := pools } r c = .ok (a, db')) :
    reserveRequest db r c = .ok (a, { db' with pools := db.pools }) := by
  simp only [reserveRequest, readRequestWaiter, bind_eq_ok, require_eq_ok, found_eq_ok,
    exists_const, pure_eq_ok, Prod.mk.injEq] at h ⊢
  obtain ⟨w, hw, hm, db₁, hins, hfree, ha, rfl⟩ := h
  exact ⟨w, hw, hm, _, insertAttempt_snapshot hins, hfree, ha, rfl⟩

theorem reserveAttempt_snapshot (hp : pools.get? r.poolID = db.pools.get? r.poolID)
    (h : reserveAttempt { db with pools := pools } r c = .ok (a, db')) :
    reserveAttempt db r c = .ok (a, { db' with pools := db.pools }) := by
  simp only [reserveAttempt, bind_eq_ok, require_eq_ok, guardPool_eq_ok, exists_const] at h ⊢
  obtain ⟨hwf, hg, h⟩ := h
  rw [poolAdmits_congr hp] at hg
  refine ⟨hwf, hg, ?_⟩
  cases hold : db.attempts.get? r.permitID with
  | some =>
    simp only [hold, bind_eq_ok, require_eq_ok, exists_const, pure_eq_ok, Prod.mk.injEq] at h ⊢
    obtain ⟨hsame, ha, rfl⟩ := h
    exact ⟨hsame, ha, rfl⟩
  | none =>
    simp only [hold] at h ⊢
    cases hk : r.kind with
    | job =>
      simp only [hk] at h ⊢
      exact reserveItem_snapshot h
    | ordinary =>
      simp only [hk] at h ⊢
      exact reserveRequest_snapshot h

/-- **A commit may as well see the present markers**, as long as the one
it guards has not moved. -/
theorem Call.exec_snapshot {pool : String} (hguards : call.guards db = some (pool, generation))
    (hp : pools.get? pool = db.pools.get? pool)
    (h : call.exec c { db with pools := pools } = .ok (a, db')) :
    call.exec c db = .ok (a, { db' with pools := db.pools }) := by
  -- whichever permit the call names, its row is of the pool that is guarded
  have hrow : ∀ id, (db.attempts.get? id).map (fun a => (a.poolID, a.generation))
      = some (pool, generation) →
      ∀ a, db.attempts.get? id = some a → pools.get? a.poolID = db.pools.get? a.poolID := by
    intro id hid a ha
    rw [ha, map_some, Option.some.injEq, Prod.mk.injEq] at hid
    rw [hid.1, hp]
  cases call with
  | reserve r =>
    have hpool : r.poolID = pool := (Prod.mk.inj (Option.some.inj hguards)).1
    exact reserveAttempt_snapshot (hpool ▸ hp) h
  | claim id => exact claimAttempt_snapshot (hrow id hguards) h
  | dispatch id => exact markDispatch_snapshot (hrow id hguards) h
  | confirmClaim id | confirmDispatch id =>
    simp only [Call.exec, bind_eq_ok, pure_eq_ok, Prod.mk.injEq] at h ⊢
    obtain ⟨b, hb, ha, rfl⟩ := h
    exact ⟨b, confirmAttemptWrite_snapshot (hrow id hguards) hb, ha, rfl⟩

end Snapshot

/-- A committed call is a transaction of the ledger, or only read. -/
theorem Call.exec_step (h : call.exec c db = .ok (a, db')) :
    db' = db ∨ (ledger size).step db db' := by
  cases call with
  | reserve r => exact .inr ⟨.reserveAttempt r, c, map_snd_of_eq_ok h⟩
  | claim id nonce => exact .inr ⟨.claimAttempt id nonce, c, map_snd_of_eq_ok h⟩
  | dispatch id nonce => exact .inr ⟨.markDispatch id nonce, c, map_snd_of_eq_ok h⟩
  | confirmClaim | confirmDispatch =>
    simp only [Call.exec, bind_eq_ok, pure_eq_ok, Prod.mk.injEq] at h
    obtain ⟨b, -, -, rfl⟩ := h
    exact .inl rfl

theorem sameReservation.pool {r' : Reservation} (h : sameReservation r r') :
    r.poolID = r'.poolID ∧ r.generation = r'.generation := by
  simp only [sameReservation, Reservation.stored, Reservation.mk.injEq] at h
  exact ⟨h.2.1, h.2.2.1⟩

/-- **What a call returns is of a generation its pool admits.** -/
theorem Call.exec_admits (h : call.exec c db = .ok (a, db')) :
    PoolAdmits db a.poolID a.generation := by
  cases call with
  | reserve =>
    obtain ⟨-, hp, ⟨-, hsame, -⟩ | ⟨-, i, j, h⟩ | ⟨-, w, h⟩⟩ := reserveAttempt_commits h
    · obtain ⟨hpool, hgen⟩ := hsame.pool
      rw [hpool, hgen]
      exact hp
    · rw [h.row]
      exact hp
    · rw [h.row, Reservation.requestRow]
      split <;> exact hp
  | claim =>
    obtain ⟨b, h⟩ := claimAttempt_commits h
    rw [h.row]
    exact h.pool
  | dispatch =>
    obtain ⟨b, h⟩ := markDispatch_commits h
    rw [h.row]
    exact h.pool
  | confirmClaim | confirmDispatch =>
    simp only [Call.exec, bind_eq_ok, pure_eq_ok, Prod.mk.injEq] at h
    obtain ⟨b, hb, rfl, -⟩ := h
    exact (confirmAttemptWrite_confirms hb).pool

/-- A stored permit keeps its reservation, so a call guards the same pool
whenever it is asked. -/
theorem Call.guards_step {x : String × ℤ} (hg : call.guards db = some x)
    (h : (ledger size).step db db') : call.guards db' = some x := by
  obtain ⟨op, c, hexec⟩ := h
  have hrow : ∀ id, (db.attempts.get? id).map (fun a => (a.poolID, a.generation)) = some x →
      (db'.attempts.get? id).map (fun a => (a.poolID, a.generation)) = some x := by
    intro id hid
    obtain ⟨a, ha, rfl⟩ := map_eq_some_iff.mp hid
    obtain ⟨a', ha', hres⟩ := (Op.exec_effect hexec).reservation ha
    rw [ha', map_some, hres]
  cases call with
  | reserve => exact hg
  | claim id | dispatch id | confirmClaim id | confirmDispatch id => exact hrow id hg

/-- **What a share lock holds in place**: the marker the guard read. -/
def Holds (s : Locked) : Prop :=
  ∀ tx ∈ s.held, tx.call.guards s.db = some (tx.pool, tx.generation)
    ∧ ∃ p, tx.pools.get? tx.pool = some p ∧ s.db.pools.get? tx.pool = some p

theorem Holds.commit (hh : Holds s) {tx : Guarded} (htx : tx ∈ s.held)
    (h : tx.call.exec c { s.db with pools := tx.pools } = .ok (a, db')) :
    tx.call.exec c s.db = .ok (a, { db' with pools := s.db.pools }) := by
  obtain ⟨hguards, p, hread, hnow⟩ := hh tx htx
  exact Call.exec_snapshot hguards (hread.trans hnow.symm) h

/-- **Every step under locks is a step of the ledger, or none.** -/
theorem LockStep.ledgerStep {s' : Locked} (hh : Holds s) (h : LockStep size s s') :
    s'.db = s.db ∨ (ledger size).step s.db s'.db := by
  cases h with
  | guard => exact .inl rfl
  | commit c hs hexec => exact Call.exec_step (hh.commit (hs ▸ by simp) hexec)
  | abort => exact .inl rfl
  | free op c _ _ hexec | alone op c _ _ hexec => exact .inr ⟨op, c, hexec⟩

theorem Holds.step {s' : Locked} (hh : Holds s) (h : LockStep size s s') : Holds s' := by
  -- a call that held its lock before holds it still, if its marker has not moved
  have keep : ∀ tx ∈ s.held, (∀ p, s.db.pools.get? tx.pool = some p →
      s'.db.pools.get? tx.pool = some p) → tx.call.guards s'.db = some (tx.pool, tx.generation)
        ∧ ∃ p, tx.pools.get? tx.pool = some p ∧ s'.db.pools.get? tx.pool = some p := by
    intro tx htx hmarker
    obtain ⟨hguards, p, hread, hnow⟩ := hh tx htx
    refine ⟨?_, p, hread, hmarker p hnow⟩
    obtain hsame | hstep := h.ledgerStep hh
    · rw [hsame]
      exact hguards
    · exact Call.guards_step hguards hstep
  cases h with
  | guard call hguards hadmits =>
    intro tx htx
    obtain rfl | htx := List.mem_cons.mp htx
    · obtain ⟨p, hp, -⟩ := guardPool_eq_ok.mp hadmits
      exact ⟨hguards, p, hp, hp⟩
    · exact keep tx htx fun p hp => hp
  | commit c hs | abort hs =>
    intro tx htx
    refine keep tx ?_ fun p hp => hp
    rw [hs]
    simp only [List.mem_append, List.mem_cons] at htx ⊢
    tauto
  | free op c _ hfree hexec =>
    intro tx htx
    exact keep tx htx ((Op.exec_markers hexec tx.pool).2 (by simp [hfree]))
  | alone op c hlock hwaits hexec =>
    intro tx htx
    refine keep tx htx ((Op.exec_markers hexec tx.pool).2 ?_)
    rw [hlock]
    exact fun e => hwaits tx htx (Option.some.inj e).symm

theorem holds_of_reach (hr : (locked size).Reach s) : Holds s := by
  refine hr.invariant ?_ ?_
  · rintro s ⟨-, hheld⟩ tx htx
    rw [hheld] at htx
    exact absurd htx (by simp)
  · exact fun s s' _ ih h => ih.step h

/-- **Two-phase locking refines the ledger.** -/
theorem locked_simulates : (locked size).Simulates (ledger size) Locked.db :=
  ⟨fun _ h => h.1, fun _ _ hr h => h.ledgerStep (holds_of_reach hr)⟩

/-- A guard taken and at once committed is the transaction itself. -/
theorem locked_call (hr : (locked size).Reach ⟨db, []⟩) (call : Call) {pool : String}
    (hguards : call.guards db = some (pool, generation)) (hadmits : PoolAdmits db pool generation)
    (h : call.exec c db = .ok (a, db')) (hpools : db'.pools = db.pools) :
    (locked size).Reach ⟨db', []⟩ := by
  have hguard : LockStep size ⟨db, []⟩ ⟨db, [⟨call, pool, generation, db.pools⟩]⟩ :=
    .guard call hguards (guardPool_eq_ok.mpr hadmits)
  have hcommit : LockStep size ⟨db, [⟨call, pool, generation, db.pools⟩]⟩
      ⟨{ db' with pools := db.pools }, []⟩ :=
    @LockStep.commit size _ ⟨call, pool, generation, db.pools⟩ [] [] c a db' rfl h
  have hdb : { db' with pools := db.pools } = db' := by rw [← hpools]
  rw [hdb] at hcommit
  exact .step (.step hr hguard) hcommit

/-- **Nothing is lost to the locks**: every run of the ledger is one under
locks. -/
theorem locked_of_ledger (hr : (ledger size).Reach db) : (locked size).Reach ⟨db, []⟩ := by
  induction hr with
  | init h => exact .init ⟨h, rfl⟩
  | @step db db' hr h ih =>
    obtain ⟨op, c, hexec⟩ := h
    cases hop : op.guarded with
    | false =>
      cases hlock : op.locks with
      | none => exact .step ih (.free op c hop hlock hexec)
      | some => exact .step ih (.alone op c hlock (by simp) hexec)
    | true =>
      cases op with
      | reserveAttempt r =>
        obtain ⟨a, h⟩ := map_snd_eq_ok hexec
        exact locked_call ih (.reserve r) rfl (reserveAttempt_commits h).2.1 h
          ((Op.exec_effect hexec).pools rfl)
      | claimAttempt id nonce =>
        obtain ⟨a', h⟩ := map_snd_eq_ok hexec
        obtain ⟨a, hc⟩ := claimAttempt_commits h
        refine locked_call ih (.claim id nonce) ?_ hc.pool h (by rw [hc.frame])
        simp [Call.guards, hc.attempts.old]
      | markDispatch id nonce =>
        obtain ⟨a', h⟩ := map_snd_eq_ok hexec
        obtain ⟨a, hc⟩ := markDispatch_commits h
        refine locked_call ih (.dispatch id nonce) ?_ hc.pool h (by rw [hc.frame])
        simp [Call.guards, hc.attempts.old]
      | _ => exact absurd hop (by simp [Op.guarded])

/-- **Generation fencing.** In every state reachable under locks, each
attempt that is not both settled and stopped is of its pool's current
generation. From there on no generation goes back. And whichever guarded
call commits, a reservation, a claim, a dispatch or a read-back of one, the
row it returns is of its pool's generation at that moment, so none of an
older generation succeeds. -/
theorem generation_fencing {s : Locked} (hr : (locked size).Reach s) :
    (∀ id a, s.db.attempts.get? id = some a → ¬ (a.state = .settled ∧ a.stoppedAt ≠ none) →
      ∃ p, s.db.pools.get? a.poolID = some p ∧ a.generation = p.generation)
    ∧ (∀ s', (locked size).Run s s' → ∀ pool p, s.db.pools.get? pool = some p →
      ∃ p', s'.db.pools.get? pool = some p' ∧ p.generation ≤ p'.generation)
    ∧ (∀ tx ∈ s.held, ∀ c a db', tx.call.exec c { s.db with pools := tx.pools } = .ok (a, db') →
      ∀ p, s.db.pools.get? a.poolID = some p → ¬ a.generation < p.generation) := by
  have hledger := locked_simulates.reach hr
  refine ⟨?_, ?_, ?_⟩
  · intro id a ha ho
    obtain ⟨p, hp, hgen⟩ := fenced_of_reach hledger id a ha ho
    exact ⟨p, hp, hgen.symm⟩
  · intro s' hrun pool p hp
    exact generation_of_run hledger (locked_simulates.run hr hrun) hp
  · intro tx htx c a db' hexec p hp
    obtain ⟨q, hq, hgen, -⟩ := Call.exec_admits ((holds_of_reach hr).commit htx hexec)
    obtain rfl := mem_unique hp hq
    omega

theorem isOk_unit {x : Except Err Unit} (h : x.isOk = true) : x = .ok () := by
  obtain ⟨-, rfl⟩ := exists_of_isOk h
  rfl

open Sample

/-- A reserved permit of the sample run, and its claim between guard and
commit. -/
theorem generation_fencing_sample :
    ∃ s, (locked Sample.size).Reach s
      ∧ (∃ a p, s.db.attempts.get? permit = some a ∧ a.state = .reserved
        ∧ s.db.pools.get? a.poolID = some p ∧ a.generation = p.generation)
      ∧ ∃ tx ∈ s.held, ∃ c a db', tx.call.exec c { s.db with pools := tx.pools } = .ok (a, db')
        ∧ ∀ p, s.db.pools.get? a.poolID = some p → ¬ a.generation < p.generation := by
  have hlead : Leads Sample.size reserved .empty fun db =>
      ((db.attempts.get? permit).map fun a => (a.poolID, a.generation, a.state))
          = some ("pool", 2, .reserved)
        ∧ (guardPool db "pool" 2).isOk = true
        ∧ (claimAttempt db permit nonce (clock 1001)).isOk = true := by
    decide +kernel
  obtain ⟨db, hr, hrow, hguard, hclaim⟩ := hlead.reach
  obtain ⟨a, ha, hfields⟩ := map_eq_some_iff.mp hrow
  simp only [Prod.mk.injEq] at hfields
  obtain ⟨hpool, hgen, hstate⟩ := hfields
  have hguards : (Call.claim permit nonce).guards db = some ("pool", 2) := by
    simp [Call.guards, ha, hpool, hgen]
  have hreach := System.Reach.step (locked_of_ledger hr)
    (.guard (.claim permit nonce) hguards (isOk_unit hguard))
  obtain ⟨⟨a', db'⟩, hexec⟩ := exists_of_isOk hclaim
  have hfence := generation_fencing hreach
  obtain ⟨p, hp, hcurrent⟩ := hfence.1 permit a ha (by simp [hstate])
  refine ⟨_, hreach, ⟨a, p, ha, hstate, hp, hcurrent⟩, _, List.mem_cons_self, clock 1001, a',
    db', hexec, ?_⟩
  exact hfence.2.2 _ List.mem_cons_self _ _ _ hexec

end HardenLlm.Batch
