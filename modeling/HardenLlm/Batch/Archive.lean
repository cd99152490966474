import HardenLlm.Batch.Owners
import HardenLlm.Batch.Retirement
import HardenLlm.Batch.Model.Archive
/-!
# What is pruned is over

A waiter is marked only by a batch of its own pool and generation, and a
batch holds permits that have left the pool for good. A waiter's permit
never changes and has its own row, so the row that is deleted with a
marked waiter is the one the mark was about.
-/

namespace HardenLlm.Batch

open List Option

variable {H : Hashes} {size : AttemptObservation → ℕ} {db db' : DB} {c : Clock} {op : Op}

/-! ## Waiters and the rows of their permits -/

/-- **The permit of a waiter has a row of its own.** -/
def Housed (db : DB) : Prop :=
  ∀ id w, db.waiters.get? id = some w → w.permitID ≠ "" →
    ∃ a, db.attempts.get? w.permitID = some a ∧ a.kind = .ordinary ∧ a.requestID = id
      ∧ a.poolID = w.poolID ∧ a.generation = w.generation

theorem Housed.effect (h : Housed db) (he : Effect size c db db' op) : Housed db' := by
  -- an old row keeps its reservation
  have hkept : ∀ {id p : String} {w : RequestWaiter}, (∃ a, db.attempts.get? p = some a
        ∧ a.kind = .ordinary ∧ a.requestID = id ∧ a.poolID = w.poolID
        ∧ a.generation = w.generation) →
      ∃ a, db'.attempts.get? p = some a ∧ a.kind = .ordinary ∧ a.requestID = id
        ∧ a.poolID = w.poolID ∧ a.generation = w.generation := by
    rintro id p w ⟨a, ha, hrow⟩
    obtain ⟨a', ha', hres⟩ := he.reservation ha
    exact ⟨a', ha', by rw [hres]; exact hrow⟩
  intro id w' hw' hp
  obtain hsame | ⟨-, w, now, -, hw⟩ | ⟨w, v, hw, hv, hstep, hpermit⟩ := he.waiter id
  · exact hkept (h id w' (hsame ▸ hw') hp)
  · obtain rfl := mem_unique hw hw'
    exact absurd rfl hp
  · obtain rfl := mem_unique hv hw'
    obtain ⟨hpool, hgen, -⟩ := hstep.later.request
    rw [hpool, hgen]
    obtain hsame | ⟨hfree, a, ha, hkind, hid⟩ := hpermit
    · rw [hsame] at hp ⊢
      exact hkept (h id w hw hp)
    · -- a new row is the reservation's, made for this waiter
      refine ⟨a, ha, hkind, hid, ?_⟩
      obtain ⟨b, hb, -⟩ | ⟨r, -, -, -, hres, ⟨i, j, hk, -⟩ | ⟨w₀, -, hcommit⟩⟩ := he.origin ha
      · rw [hfree] at hb
        cases hb
      · rw [hres] at hkind
        have : r.kind = .ordinary := hkind
        rw [hk] at this
        cases this
      · have hw₀ := hcommit.waiter
        have hreq : r.requestID = id := by
          rw [← hid, hres]
          rfl
        rw [hreq, hw] at hw₀
        obtain rfl := Option.some.inj hw₀
        rw [hres]
        exact ⟨hcommit.matches_.1.symm, hcommit.matches_.2.1.symm⟩

theorem WaiterStep.observed {w w' : RequestWaiter} (h : WaiterStep w w') :
    w'.poolObservedAt = w.poolObservedAt := by
  cases h <;> rfl

/-! ## Marking -/

/-- **A committed acknowledgement** marks the waiters of retirable rows. -/
theorem acknowledgeRequests_commits {read : PoolRead} (h : acknowledgeRequests db read c = .ok db') :
    db'.attempts = db.attempts ∧ ∀ id w', db'.waiters.get? id = some w' →
      ∃ w, db.waiters.get? id = some w ∧ w'.permitID = w.permitID ∧ w'.poolID = w.poolID
        ∧ w'.generation = w.generation
        ∧ (w'.poolObservedAt = w.poolObservedAt ∨ (w.permitID ≠ ""
          ∧ ∃ a, db.attempts.get? w.permitID = some a ∧ a.retirable read = true)) := by
  simp only [acknowledgeRequests, bind_eq_ok, require_eq_ok, exists_const, pure_eq_ok] at h
  obtain ⟨-, -, -, -, rfl⟩ := h
  refine ⟨rfl, fun id w' hw' => ?_⟩
  obtain ⟨w, hw, rfl⟩ := map_eq_some_iff.1
    ((Table.get?_update db.waiters _ _ id).symm.trans hw')
  refine ⟨w, hw, ?_⟩
  split
  · rename_i hmark
    simp only [Bool.and_eq_true, decide_eq_true_eq] at hmark
    obtain ⟨a, ha, hret⟩ := (any_eq_true _ _).1 hmark.2
    exact ⟨rfl, rfl, rfl, .inr ⟨hmark.1, a, ha, hret⟩⟩
  · exact ⟨rfl, rfl, rfl, .inl rfl⟩

/-! ## Pruning -/

/-- **What pruning one waiter does**: nothing, or the waiter goes, with its
permit's row if it holds a permit. -/
theorem pruneRequest_cases (pool : String) (r : ℕ × DB) (w : RequestWaiter) :
    pruneRequest pool r w = r
      ∨ (pruneRequest pool r w).2.waiters = r.2.waiters.erase w.requestID
        ∧ ((w.permitID = "" ∧ (pruneRequest pool r w).2.attempts = r.2.attempts)
          ∨ (w.permitID ≠ "" ∧ ∃ a, r.2.attempts.get? w.permitID = some a ∧ a.prunable pool = true
            ∧ (pruneRequest pool r w).2.attempts = r.2.attempts.erase w.permitID)) := by
  unfold pruneRequest
  split
  · rename_i hnone
    exact .inr ⟨rfl, .inl ⟨hnone, rfl⟩⟩
  · rename_i hpermit
    split
    · exact .inl rfl
    · rename_i a ha
      split
      · rename_i hprune
        exact .inr ⟨rfl, .inr ⟨hpermit, a, ha, hprune, rfl⟩⟩
      · exact .inl rfl

/-- **How far a database is pruned**: what is left was there, every waiter
still has its permit's row, and a row that is gone went with its marked
waiter. -/
structure Pruned (db db' : DB) : Prop where
  attempts : ∀ id a, db'.attempts.get? id = some a → db.attempts.get? id = some a
  waiters : ∀ id w, db'.waiters.get? id = some w → db.waiters.get? id = some w
  housed : Housed db'
  gone : ∀ id a, db.attempts.get? id = some a → db'.attempts.get? id = none →
    a.kind = .ordinary ∧ a.state = .settled ∧ a.stoppedAt ≠ none
      ∧ ∃ req w, db.waiters.get? req = some w ∧ w.permitID = id ∧ w.permitID ≠ ""
        ∧ w.poolObservedAt ≠ none

theorem Pruned.refl (h : Housed db) : Pruned db db :=
  ⟨fun _ _ h => h, fun _ _ h => h, h, fun _ _ h h' => by simp [h] at h'⟩

/-- **One waiter more.** -/
theorem Pruned.request (h : Housed db) {r : ℕ × DB} (hp : Pruned db r.2) {pool : String} {now : ℤ}
    {w : RequestWaiter} (hw : db.waiters.get? w.requestID = some w)
    (hexp : w.expired pool now = true) : Pruned db (pruneRequest pool r w).2 := by
  obtain hsame | ⟨hwaiters, hattempts⟩ := pruneRequest_cases pool r w
  · rw [hsame]
    exact hp
  · have hleft : ∀ id v, (pruneRequest pool r w).2.waiters.get? id = some v →
        id ≠ w.requestID ∧ r.2.waiters.get? id = some v := by
      intro id v hv
      rw [hwaiters, Table.get?_erase] at hv
      split at hv
      · cases hv
      · exact ⟨‹_›, hv⟩
    obtain ⟨-, hatt⟩ | ⟨hpermit, a, ha, hprune, hatt⟩ := hattempts
    · refine ⟨?_, fun id v hv => hp.waiters id v (hleft id v hv).2, ?_, ?_⟩
      · rw [hatt]
        exact hp.attempts
      · intro id v hv hvp
        rw [hatt]
        exact hp.housed id v (hleft id v hv).2 hvp
      · rw [hatt]
        exact hp.gone
    · have hget : ∀ id, (pruneRequest pool r w).2.attempts.get? id
          = if id = w.permitID then none else r.2.attempts.get? id := by
        intro id
        rw [hatt, Table.get?_erase]
      have hrow := hp.attempts _ a ha
      refine ⟨?_, fun id v hv => hp.waiters id v (hleft id v hv).2, ?_, ?_⟩
      · intro id b hb
        rw [hget] at hb
        split at hb
        · cases hb
        · exact hp.attempts id b hb
      · intro id v hv hvp
        obtain ⟨hne, hv⟩ := hleft id v hv
        obtain ⟨b, hb, hk, hid, hown⟩ := hp.housed id v hv hvp
        refine ⟨b, ?_, hk, hid, hown⟩
        rw [hget, if_neg, hb]
        -- no other waiter holds the permit
        intro hsame
        obtain ⟨a₀, ha₀, -, hid₀, -⟩ := h _ w hw hpermit
        rw [hsame, ha] at hb
        obtain rfl := Option.some.inj hb
        obtain rfl := mem_unique hrow ha₀
        exact hne (hid.symm.trans hid₀)
      · intro id b hb hnone
        rw [hget] at hnone
        split at hnone
        · rename_i hid
          subst hid
          obtain rfl := mem_unique hrow hb
          simp only [Attempt.prunable, Bool.and_eq_true, decide_eq_true_eq] at hprune
          simp only [RequestWaiter.expired, Bool.and_eq_true, Bool.or_eq_true,
            decide_eq_true_eq] at hexp
          refine ⟨hprune.1.1.2, hprune.1.2, ?_, _, w, hw, rfl, hpermit, ?_⟩
          · exact isSome_iff_ne_none.1 hprune.2
          · exact isSome_iff_ne_none.1 (hexp.2.resolve_left hpermit)
        · exact hp.gone id b hb hnone

/-- **A committed pruning.** -/
theorem pruneRequests_commits {pool : String} {limit : ℤ} {locked : RequestWaiter → Bool} {n : ℕ}
    (h : Housed db) (hexec : pruneRequests db pool limit locked c = .ok (n, db')) :
    Pruned db db' := by
  simp only [pruneRequests, require_seq, pure_eq_ok] at hexec
  obtain ⟨-, hfold⟩ := hexec
  -- every selected waiter is stored, and its time is over
  have hsel : ∀ w ∈ ((db.waiters.rows.filter fun w => w.expired pool c.tx && !locked w).insertionSort
      fun w v => w.before v = true).take limit.toNat,
      db.waiters.get? w.requestID = some w ∧ w.expired pool c.tx = true := by
    intro w hw
    have hw := (mem_insertionSort _).1 (mem_of_mem_take hw)
    obtain ⟨hrow, hexp⟩ := mem_filter.1 hw
    exact ⟨Table.get?_of_mem hrow, (Bool.and_eq_true _ _ ▸ hexp).1⟩
  generalize ((db.waiters.rows.filter fun w => w.expired pool c.tx && !locked w).insertionSort
    fun w v => w.before v = true).take limit.toNat = selected at hsel hfold
  have hall : ∀ (l : List RequestWaiter), (∀ w ∈ l, db.waiters.get? w.requestID = some w
      ∧ w.expired pool c.tx = true) → ∀ r : ℕ × DB, Pruned db r.2 →
      Pruned db (l.foldl (pruneRequest pool) r).2 := by
    intro l
    induction l with
    | nil => exact fun _ r hr => hr
    | cons w l ih =>
      intro hl r hr
      obtain ⟨hw, hexp⟩ := hl w mem_cons_self
      exact ih ((forall_mem_cons.1 hl).2) _ (hr.request h hw hexp)
  have := hall selected hsel (0, db) (.refl h)
  rw [hfold] at this
  exact this

/-! ## Whole runs -/

namespace Archive

variable {s s' : Archive}

/-- **What the pool's rows, reads and marks rest on.** -/
structure Kept (s : Archive) : Prop where
  rows : ∀ id a, s.db.attempts.get? id = some a → s.Owns a.poolID a.generation →
    s.workflow.toPoolRun.Shows a
  reads : ∀ a ∈ s.reads, s.Owns a.poolID a.generation → s.workflow.toPoolRun.Shows a
  housed : Housed s.db
  marked : ∀ id w, s.db.waiters.get? id = some w → w.poolObservedAt ≠ none →
    w.permitID ≠ "" ∧ (s.Owns w.poolID w.generation → ∃ b ∈ s.batches, w.permitID ∈ b)

/-- The workflow's acts leave the database alone. -/
theorem Kept.follow (h : s.Kept) (t : ℤ) (act : WorkflowAct) (l : List (List String)) :
    Kept { s with workflow := s.workflow.follow H t act, batches := s.batches ++ l } := by
  obtain ⟨hpool, hgen, hgranted⟩ := PoolWorkflow.follow_frame (H := H) s.workflow t act
  have howns : ∀ {pool generation},
      Owns { s with workflow := s.workflow.follow H t act, batches := s.batches ++ l } pool generation
        → s.Owns pool generation := by
    rintro pool generation ⟨hp, hg⟩
    exact ⟨hp.trans hpool, hg.trans hgen⟩
  have hshows : ∀ {a}, s.workflow.toPoolRun.Shows a →
      (s.workflow.follow H t act).toPoolRun.Shows a :=
    fun ⟨p, hp, hrow⟩ => ⟨p, hgranted hp, hrow⟩
  refine ⟨?_, ?_, h.housed, ?_⟩
  · exact fun id a ha ho => hshows (h.rows id a ha (howns ho))
  · exact fun a ha ho => hshows (h.reads a ha (howns ho))
  · intro id w hw hm
    obtain ⟨hp, hb⟩ := h.marked id w hw hm
    refine ⟨hp, fun ho => ?_⟩
    obtain ⟨b, hb, hmem⟩ := hb (howns ho)
    exact ⟨b, mem_append_left _ hb, hmem⟩

/-- A transaction of the ledger adds only rows the pool granted, and moves
no mark. -/
theorem Kept.exec (h : s.Kept) (hoffer : s.Offers op) (hexec : op.exec size c s.db = .ok db') :
    Kept { s with db := db' } := by
  have he := Op.exec_effect hexec
  refine ⟨?_, h.reads, h.housed.effect he, ?_⟩
  · intro id a' ha' ho
    obtain ⟨a, ha, hres, -⟩ | ⟨r, rfl, -, -, hres, -⟩ := he.origin ha'
    · rw [hres] at ho
      obtain ⟨p, hp, hrow⟩ := h.rows id a ha ho
      exact ⟨p, hp, hres.trans hrow⟩
    · rw [hres] at ho
      exact ⟨r, hoffer ho, hres⟩
  · intro id w' hw' hm
    obtain hsame | ⟨-, w, now, -, hw⟩ | ⟨w, v, hw, hv, hstep, -⟩ := he.waiter id
    · exact h.marked id w' (hsame ▸ hw') hm
    · obtain rfl := mem_unique hw hw'
      exact absurd rfl hm
    · obtain rfl := mem_unique hv hw'
      rw [hstep.observed] at hm
      obtain ⟨hp, hb⟩ := h.marked id w hw hm
      obtain ⟨hpool, hgen, -⟩ := hstep.later.request
      rw [hstep.later.permit hp, hpool, hgen]
      exact ⟨hp, hb⟩

/-- A mark is set by a batch of the waiter's own pool. -/
theorem Kept.acknowledge (h : s.Kept) {read : PoolRead}
    (hsent : s.Owns read.poolID read.generation → read.ids ∈ s.batches)
    (hexec : acknowledgeRequests s.db read c = .ok db') : Kept { s with db := db' } := by
  obtain ⟨hattempts, hwaiters⟩ := acknowledgeRequests_commits hexec
  refine ⟨?_, h.reads, ?_, ?_⟩
  · intro id a ha
    exact h.rows id a (hattempts ▸ ha)
  · intro id w' hw' hp
    obtain ⟨w, hw, hpermit, hpool, hgen, -⟩ := hwaiters id w' hw'
    rw [hpermit] at hp ⊢
    rw [hattempts, hpool, hgen]
    exact h.housed id w hw hp
  · intro id w' hw' hm
    obtain ⟨w, hw, hpermit, hpool, hgen, hobs⟩ := hwaiters id w' hw'
    rw [hpermit, hpool, hgen]
    obtain hsame | ⟨hp, a, ha, hret⟩ := hobs
    · exact h.marked id w hw (hsame ▸ hm)
    · refine ⟨hp, fun ho => ⟨read.ids, hsent ?_, ?_⟩⟩
      · obtain ⟨a₀, ha₀, -, -, hpool₀, hgen₀⟩ := h.housed id w hw hp
        obtain rfl := mem_unique ha ha₀
        simp only [Attempt.retirable, Bool.and_eq_true, decide_eq_true_eq] at hret
        rw [← hret.1.1.1.1.1, ← hret.1.1.1.1.2, hpool₀, hgen₀]
        exact ho
      · simp only [Attempt.retirable, Bool.and_eq_true, decide_eq_true_eq] at hret
        have hmem := hret.1.1.1.2
        rw [permitID_of_get? ha] at hmem
        simpa using hmem

theorem Kept.prune (h : s.Kept) (hp : Pruned s.db db') : Kept { s with db := db' } :=
  ⟨fun id a ha => h.rows id a (hp.attempts id a ha), h.reads, hp.housed,
    fun id w hw => h.marked id w (hp.waiters id w hw)⟩

theorem kept_of_reach (hr : (archives H size).Reach s) : s.Kept := by
  refine hr.invariant (P := Kept) ?_ ?_
  · rintro s ⟨-, -, hdb, hreads, -⟩
    refine ⟨?_, ?_, ?_, ?_⟩
    · intro id a ha
      rw [hdb] at ha
      cases ha
    · simp [hreads]
    · intro id w hw
      rw [hdb] at hw
      cases hw
    · intro id w hw
      rw [hdb] at hw
      cases hw
  · intro s s' hr h hs
    cases hs with
    | follow t act => exact h.follow t act _
    | @read id a ha =>
      refine ⟨h.rows, ?_, h.housed, h.marked⟩
      rintro b (_ | ⟨_, hb⟩)
      · exact h.rows id a ha
      · exact h.reads b hb
    | exec op c hoffer hexec => exact h.exec hoffer hexec
    | acknowledge read c hsent hexec => exact h.acknowledge hsent hexec
    | prune pool limit locked c hexec => exact h.prune (pruneRequests_commits h.housed hexec)

theorem minted_of_reach (hr : (archives H size).Reach s) : Minted H s.workflow.toPoolRun := by
  refine hr.invariant (P := fun s => Minted H s.workflow.toPoolRun) ?_ ?_
  · rintro s ⟨hinit, -⟩
    exact Batch.minted_of_reach (.init hinit)
  · intro s s' hr hm hs
    cases hs with
    | follow t act =>
      dsimp only
      rw [PoolWorkflow.follow_toPoolRun]
      obtain h | ⟨item, -, h⟩ := PoolRun.act_cases (H := H) s.workflow.toPoolRun t
        (act.poolAct s.workflow)
      · exact hm.idle h
      · exact hm.grow h
    | read | exec | acknowledge | prune => exact hm

/-- **What a batch holds has left the pool for good.** -/
structure Released (s : Archive) : Prop where
  shelved : s.workflow.Shelved
  batches : ∀ b ∈ s.batches, ∀ id ∈ b, (∃ p ∈ s.workflow.granted, p.permitID = id)
    ∧ id ∉ s.workflow.pool.slots

theorem legible_of_allows (h : s.Kept) {act : WorkflowAct} (ha : s.Allows act) :
    s.workflow.Legible act := by
  intro a hmem hpool hgen
  unfold WorkflowAct.delivers at hmem
  split at hmem
  · obtain rfl := mem_singleton.1 hmem
    exact h.reads a ha.1 ⟨hpool, hgen⟩
  · cases hmem

theorem released_of_reach (hr : (archives H size).Reach s) (hd : H.Distinct s.workflow.granted) :
    s.Released := by
  refine hr.invariant (P := fun s => H.Distinct s.workflow.granted → s.Released) ?_ ?_ hd
  · rintro s ⟨⟨pool, generation, policy, -, hpool, -, -⟩, hretiring, -, -, hbatches⟩ -
    refine ⟨?_, by simp [hbatches]⟩
    constructor <;> simp [hpool, PoolState.new, hretiring]
  · intro s s' hr ih hs hd
    cases hs with
    | read | exec | acknowledge | prune => exact ⟨(ih hd).shelved, (ih hd).batches⟩
    | follow t act hfollows hallowed =>
      have hmint := minted_of_reach hr
      have hmint' := minted_of_reach (hr.step (.follow t act hfollows hallowed))
      obtain ⟨-, -, hgranted⟩ := PoolWorkflow.follow_frame (H := H) s.workflow t act
      have h := ih (hd.mono hgranted)
      have hlegible := legible_of_allows (kept_of_reach hr) hallowed
      refine ⟨h.shelved.follow hmint hmint' hd hfollows hlegible, ?_⟩
      -- a permit of a batch, old or new, was out of the pool before the act
      have hout : ∀ b ∈ s.batches ++ act.sends s.workflow.pool, ∀ id ∈ b,
          (∃ p ∈ s.workflow.granted, p.permitID = id) ∧ id ∉ s.workflow.pool.slots := by
        intro b hb id hid
        obtain hb | hb := mem_append.1 hb
        · exact h.batches b hb id hid
        · unfold WorkflowAct.sends at hb
          split at hb
          · obtain rfl := mem_singleton.1 hb
            have hmem := mem_of_mem_take hid
            obtain ⟨p, hp, hpid, -⟩ := h.shelved.granted id hmem
            exact ⟨⟨p, hp, hpid⟩, h.shelved.gone id hmem⟩
          · cases hb
      intro b hb id hid
      obtain ⟨⟨p, hp, rfl⟩, hgone⟩ := hout b hb id hid
      exact ⟨⟨p, hgranted hp, rfl⟩, PoolWorkflow.gone_follow hmint' hd hfollows hp hgone⟩

end Archive

/-- **Metadata is pruned only after the pool let go of it.** In every run,
whatever is enqueued, reserved, claimed, settled, retired, acknowledged
and pruned in whatever order, the row of a permit is deleted only if it
is an ordinary one, settled and stopped, and only when the pool that
granted it has no slot for it. -/
theorem pruned_after_release {s s' : Archive} (hr : (archives H size).Reach s)
    (hd : H.Distinct s.workflow.granted) (hs : (archives H size).step s s') {id : String}
    {a : Attempt} (ha : s.db.attempts.get? id = some a) (hgone : s'.db.attempts.get? id = none) :
    a.kind = .ordinary ∧ a.state = .settled ∧ a.stoppedAt ≠ none
      ∧ (a.poolID = s.workflow.pool.poolID → a.generation = s.workflow.pool.generation →
        id ∉ s'.workflow.pool.slots) := by
  have hkept := Archive.kept_of_reach hr
  cases hs with
  | follow | read => simp [ha] at hgone
  | exec op c _ hexec =>
    obtain ⟨a', ha', -⟩ := (Op.exec_effect hexec).reservation ha
    dsimp only at hgone
    rw [ha'] at hgone
    cases hgone
  | acknowledge read c _ hexec =>
    dsimp only at hgone
    rw [(acknowledgeRequests_commits hexec).1, ha] at hgone
    cases hgone
  | prune pool limit locked c hexec =>
    have hpruned := pruneRequests_commits hkept.housed hexec
    obtain ⟨hkind, hset, hstop, req, w, hw, rfl, hpermit, hmark⟩ := hpruned.gone _ a ha hgone
    refine ⟨hkind, hset, hstop, fun hpool hgen => ?_⟩
    -- the mark was for this row, so it came in a batch of this pool
    obtain ⟨b, hb, -, -, hbpool, hbgen⟩ := hkept.housed req w hw hpermit
    obtain rfl := mem_unique ha hb
    obtain ⟨-, hbatch⟩ := hkept.marked req w hw hmark
    obtain ⟨b, hb, hmem⟩ := hbatch ⟨hbpool.symm.trans hpool, hbgen.symm.trans hgen⟩
    exact ((Archive.released_of_reach hr hd).batches b hb _ hmem).2

/-! ## A lapsed request, pruned -/

/-- Transactions run as they do in the ledger. -/
theorem archives_of_execAll {s : Archive} {script : List (Op × Clock)}
    (hoffer : ∀ e ∈ script, s.Offers e.1) (hr : (archives H size).Reach s)
    (h : execAll size script s.db = .ok db') : (archives H size).Reach { s with db := db' } := by
  exact execAll_induction (P := fun d => (archives H size).Reach { s with db := d })
    (fun e he _ _ hd hx => hd.step (.exec e.1 e.2 (hoffer e he) hx)) h hr

namespace Sample

def request : String := "44444444-4444-4444-8444-444444444444"

def requestItem : ReadyItem where
  kind := .ordinary
  requestID := request
  ref := ⟨scope, "", 0⟩
  budgetMS := 300000
  deadline := 1100 * second
  readyAt := 1000 * second

/-- The permit the sample pool grants for it. -/
def requestPermit : Reservation :=
  { reservation with
    ref := ⟨scope, "", 0⟩
    requestID := request
    kind := .ordinary
    workflowID := "hllm-cpa-request-v2/" ++ permit }

def waiter : RequestWaiter where
  requestID := request
  poolID := "pool"
  generation := 2
  scope := scope
  ownerID := nonce
  executionID := job
  ordinal := 1
  createdAt := 0
  deadline := 1100 * second
  budgetMS := 300000
  liveUntil := 0

/-- The request enqueued, its permit reserved, and never claimed. -/
def lapsingRequest : List (Op × Clock) :=
  [(.ensurePool "pool" 2, clock 1000), (.enqueueRequest waiter, clock 1000),
    (.reserveAttempt requestPermit, clock 1000), (.expireReservation permit, clock 1006)]

/-- Its row then. -/
def lapsedRequest : Attempt :=
  (requestPermit.row 1).settledWith (neverDispatchedAt (1006 * second))

/-- The sample workflow with its grant. -/
def serving : PoolWorkflow := { fresh.act hashes (1000 * second) (.grant requestItem) with }

theorem serving_eq : serving.granted = [requestPermit] ∧ serving.pool.poolID = "pool"
    ∧ serving.pool.generation = 2
    ∧ (serving.pool.observe hashes (1007 * second) lapsedRequest).requestRetirements = [permit] := by
  decide +kernel

/-- The pool has let go of the permit. -/
def letGo (db : DB) : Except Err DB := acknowledgeRequests db ⟨"pool", 2, [permit]⟩ (clock 1008)

/-- A day later its metadata is pruned. -/
def prunes (db : DB) : Bool :=
  match letGo db with
  | .error _ => false
  | .ok db₁ =>
    match pruneRequests db₁ "pool" 10 (fun _ => false) (clock 100000) with
    | .error _ => false
    | .ok (_, db₂) =>
      db₁.attempts.get? permit = some lapsedRequest && (db₂.attempts.get? permit).isNone

end Sample

open Sample

/-- The sample request lapses; the pool lets go of it, its ledger learns of
that, and its row is deleted. -/
theorem pruned_after_release_sample :
    ∃ s s', (archives hashes Sample.size).Reach s
      ∧ (archives hashes Sample.size).step s s'
      ∧ s.db.attempts.get? permit = some lapsedRequest
      ∧ s'.db.attempts.get? permit = none
      ∧ permit ∉ s'.workflow.pool.slots := by
  obtain ⟨hgranted, hpool, hgen, hret⟩ := serving_eq
  have hlead : Leads Sample.size lapsingRequest .empty fun db =>
      db.attempts.get? permit = some lapsedRequest ∧ prunes db = true := by
    decide +kernel
  obtain ⟨db, hexec, hrow, hprunes⟩ := hlead
  simp only [prunes] at hprunes
  split at hprunes
  · cases hprunes
  rename_i db₁ hack
  split at hprunes
  · cases hprunes
  rename_i n db₂ hprune
  simp only [Bool.and_eq_true, decide_eq_true_eq, isNone_iff_eq_none] at hprunes
  have hinit : (archives hashes Sample.size).Reach
      ⟨{ fresh with }, .empty, [], []⟩ :=
    .init ⟨⟨"pool", 2, policy, by decide, rfl, rfl, rfl⟩, rfl, rfl, rfl, rfl⟩
  have hgrant := hinit.step (.follow (1000 * second) (.act (.grant requestItem)) trivial trivial)
  obtain ⟨s, hr, hw, hempty⟩ : ∃ s, (archives hashes Sample.size).Reach s
      ∧ s.workflow = serving ∧ s.db = .empty := ⟨_, hgrant, rfl, rfl⟩
  have hoffer : ∀ e ∈ lapsingRequest, s.Offers e.1 := by
    intro e he
    simp only [lapsingRequest, mem_cons, not_mem_nil, or_false] at he
    obtain rfl | rfl | rfl | rfl := he
    · trivial
    · trivial
    · intro _
      rw [hw, hgranted]
      exact mem_singleton.2 rfl
    · trivial
  have hread := (archives_of_execAll hoffer hr (hempty ▸ hexec)).step (.read hrow)
  have hobserve := hread.step (.follow (1007 * second) (.act (.observe lapsedRequest)) trivial
    ⟨mem_cons_self, by rw [hw, hpool]; rfl⟩)
  obtain ⟨v, hv, hvw, hvdb⟩ : ∃ v, (archives hashes Sample.size).Reach v
      ∧ v.workflow = serving.follow hashes (1007 * second)
        (.act (.observe lapsedRequest)) ∧ v.db = db :=
    ⟨_, hobserve, by rw [← hw], rfl⟩
  -- the permit has left the pool, and its retirement is scheduled
  have hsched : v.workflow.pool.requestRetirements = [permit] := by
    rw [hvw]
    exact hret
  have hidle : v.workflow.retiring = none := by rw [hvw]; rfl
  have hretire := hv.step (.follow (1007 * second) .retire ⟨hidle, by simp [hsched]⟩ trivial)
  have hsent : [permit] ∈ v.batches ++ WorkflowAct.retire.sends v.workflow.pool := by
    simp [WorkflowAct.sends, hsched]
  have hacked := hretire.step (.acknowledge ⟨"pool", 2, [permit]⟩ (clock 1008)
    (fun _ => hsent) (hvdb ▸ hack))
  have hd : hashes.Distinct v.workflow.granted := by
    have hkeep : v.workflow.granted = [requestPermit] := by
      rw [hvw]
      exact hgranted
    rw [hkeep]
    exact hashes.distinct_singleton _
  obtain ⟨u, hu, huw, hudb⟩ : ∃ u, (archives hashes Sample.size).Reach u
      ∧ u.workflow = v.workflow.follow hashes (1007 * second) .retire ∧ u.db = db₁ :=
    ⟨_, hacked, rfl, rfl⟩
  have hstep : (archives hashes Sample.size).step u { u with db := db₂ } :=
    .prune "pool" 10 _ _ (hudb ▸ hprune)
  have hrow₁ : u.db.attempts.get? permit = some lapsedRequest := hudb ▸ hprunes.1
  have hshows := pruned_after_release hu (by rw [huw]; exact hd) hstep hrow₁ hprunes.2
  exact ⟨u, _, hu, hstep, hrow₁, hprunes.2, hshows.2.2.2
    (by rw [huw]; exact (congrArg (·.pool.poolID) hvw).trans hpool |>.symm)
    (by rw [huw]; exact (congrArg (·.pool.generation) hvw).trans hgen |>.symm)⟩

end HardenLlm.Batch
