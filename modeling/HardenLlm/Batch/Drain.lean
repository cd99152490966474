import HardenLlm.Batch.Model.Expiry
import HardenLlm.Batch.Budget
/-!
# Draining an expired job

After a job's `Expire` nothing selects its items any more, so an item that
returns to the queue then stays there. An item becomes idle in two ways
only (`Effect.idle`): its job is created, or the release of its permit
requeues it. A release that reads the clock after the deadline requeues
nothing; one that read it before, and commits after `Expire` passed it by,
does.
-/

namespace HardenLlm.Batch

open List Option

variable {size : AttemptObservation → ℕ} {db db' : DB} {c : Clock} {op : Op} {ref : Ref}
  {i i' : ItemRow} {id : String}

/-! ## How an item comes to be idle -/

/-- What the release of `a` by `op` requeues. -/
def Requeued (db : DB) (op : Op) (c : Clock) (ref : Ref) : Prop :=
  ∃ id a i j, op.permit = some id ∧ db.attempts.get? id = some a ∧ a.kind = .job ∧ a.ref = ref
    ∧ db.items.get? ref = some i ∧ i.currentPermit = some a.permitID
    ∧ db.jobs.get? ref.job = some j ∧ op.requeues c i j.deadline

/-- The items an operation leaves idle: idle before, of a job that did not
exist, or requeued. -/
def IdleFrom (db : DB) (op : Op) (c : Clock) (ref : Ref) : Prop :=
  (∃ i, db.items.get? ref = some i ∧ i.Idle) ∨ db.jobs.get? ref.job = none ∨ Requeued db op c ref

/-- What is idle after an expiry was so before, in another job. -/
theorem unexpired_of_idle {scope : String}
    (h : ∀ ref, db'.items.get? ref = (db.items.get? ref).map fun i => if i.expirable scope id then
      { i with state := .failed, outcome := expiredOutcome } else i)
    (hi : db'.items.get? ref = some i) (hidle : i.Idle) :
    db.items.get? ref = some i ∧ ref.job ≠ (scope, id) := by
  rw [h, map_eq_some_iff] at hi
  obtain ⟨b, hb, rfl⟩ := hi
  split at hidle
  · simp [ItemRow.Idle, ItemState.open] at hidle
  · rename_i he
    rw [if_neg he]
    refine ⟨hb, fun hjob => he ?_⟩
    have hopen := hidle.1
    rw [← Table.key_of_get? hb] at hjob
    have hrun : b.state.terminal = false := by
      cases hs : b.state <;> simp_all [ItemState.open, ItemState.terminal]
    simp [ItemRow.expirable, hjob, hrun, hidle.2]

/-- What a release requeues. -/
theorem ReleasedBy.requeues {o : AttemptObservation} {a : Attempt} {deadline : ℤ}
    (h : ReleasedBy c id a o op) (hidle : (i.settledBy a o deadline c).Idle) :
    op.permit = some id ∧ op.requeues c i deadline := by
  have hopen := itemVerdict_open hidle.1
  cases h with
  | settled => exact ⟨rfl, hopen.1.symm, hopen.2⟩
  | lapsed => exact ⟨rfl, hopen.2⟩

/-- **An item becomes idle only when its job is created or its permit is
released before the deadline.** -/
theorem Effect.idle (h : Effect size c db db' op) (hi : db'.items.get? ref = some i)
    (hidle : i.Idle) : IdleFrom db op c ref := by
  cases h.itemEffect ref with
  | same h => exact .inl ⟨i, h.symm.trans hi, hidle⟩
  | created hjob => exact .inr (.inl hjob)
  | expired _ _ hi' =>
    obtain rfl := mem_unique hi' hi
    cases hidle.1
  | reserved _ href hres =>
    subst href
    obtain rfl := mem_unique hres.items.get_self hi
    cases hidle.2
  | dispatched hb _ _ hi' =>
    obtain rfl := mem_unique hi' hi
    exact .inl ⟨_, hb, hidle⟩
  | released hres hby hk href hj hcur _ hrep =>
    subst href
    obtain rfl := mem_unique hrep.get_self hi
    obtain ⟨hp, hreq⟩ := hby.requeues hidle
    exact .inr (.inr ⟨_, _, _, _, hp, hres.attempts.old, hk, rfl, hrep.old, hcur, hj, hreq⟩)

/-- **A permit on an item was there before**, with no more attempts
counted, unless this transaction reserved it. -/
theorem Effect.held {p : String} (h : Effect size c db db' op)
    (hi : db'.items.get? ref = some i) (hp : i.currentPermit = some p) :
    (∃ b, db.items.get? ref = some b ∧ b.currentPermit = some p ∧ b.attempts ≤ i.attempts)
      ∨ (op.releases = false ∧ op.permit = some p) := by
  cases h.itemEffect ref with
  | same h => exact .inl ⟨i, h.symm.trans hi, hp, Int.le_refl _⟩
  | created _ _ hb hfresh =>
    obtain rfl := mem_unique hb hi
    rw [hfresh.free] at hp
    cases hp
  | expired hb _ hi' =>
    obtain rfl := mem_unique hi' hi
    exact .inl ⟨_, hb, hp, Int.le_refl _⟩
  | reserved _ href hres =>
    subst href
    obtain rfl := mem_unique hres.items.get_self hi
    exact .inr ⟨rfl, hp⟩
  | dispatched hb _ _ hi' =>
    obtain rfl := mem_unique hi' hi
    exact .inl ⟨_, hb, hp, Int.le.intro 1 rfl⟩
  | released _ _ _ href _ _ _ hrep =>
    subst href
    obtain rfl := mem_unique hrep.get_self hi
    cases hp

variable {deadline : ℤ}

theorem Op.requeues.mono (hle : i.attempts ≤ i'.attempts)
    (h : op.requeues c i' deadline) : op.requeues c i deadline := by
  cases op with
  | settleAttempt =>
    obtain ⟨hn | ⟨hk, hlt⟩, ht⟩ := h
    · exact ⟨.inl hn, ht⟩
    · exact ⟨.inr ⟨hk, by omega⟩, ht⟩
  | expireReservation | _ => exact h

theorem Op.requeues.early (h : op.requeues c i deadline) : c.item < deadline := by
  cases op with
  | settleAttempt => exact h.2
  | expireReservation => exact h
  | _ => exact h.elim

theorem Op.requeues.releases (h : op.requeues c i deadline) : op.releases = true := by
  cases op with
  | settleAttempt | expireReservation => rfl
  | _ => exact h.elim

/-! ## The invariant -/

variable {s s' : Draining} {settling : List Settling} {tx : Settling}

/-- A settlement in flight that returns no item of this job. -/
def Settling.Harmless (tx : Settling) (db : DB) (job : String × String) : Prop :=
  tx.row.kind = .job → tx.row.ref.job = job → ∀ i j, db.items.get? tx.row.ref = some i →
    i.currentPermit = some tx.row.permitID → db.jobs.get? job = some j →
    ¬ tx.op.requeues tx.clock i j.deadline

/-- **A job past its `Expire`**: its deadline has passed, its settlements
in flight return nothing, and none of its items is idle. -/
structure Drains (s : Draining) : Prop where
  due : ∀ k ∈ s.expired, ∃ j, s.db.jobs.get? k = some j ∧ j.deadline ≤ s.now
  held : ∀ tx ∈ s.settling, ∃ id a, tx.op.permit = some id ∧ tx.op.releases = true
    ∧ s.db.attempts.get? id = some a ∧ a.toReservation = tx.row.toReservation
  harmless : ∀ k ∈ s.expired, ∀ tx ∈ s.settling, tx.Harmless s.db k
  drained : ∀ k ∈ s.expired, ∀ ref i, ref.job = k → s.db.items.get? ref = some i → ¬ i.Idle

/-- A settlement that was harmless, or whose item was safe from it, is
harmless after any transaction that does not reserve its permit. -/
theorem Settling.Harmless.exec {job : String × String} {j₀ : JobRow}
    (h : tx.Harmless db job) (hj₀ : db.jobs.get? job = some j₀)
    (hexec : op.exec size c db = .ok db')
    (hwait : op.releases = false → op.permit ≠ some tx.row.permitID) : tx.Harmless db' job := by
  intro hkind href i j hi hp hj hreq
  obtain ⟨j₁, hj₁, hdl, -⟩ := (Op.exec_effect hexec).jobs job j₀ hj₀
  obtain rfl := mem_unique hj₁ hj
  rcases (Op.exec_effect hexec).held hi hp with ⟨b, hb, hbp, hle⟩ | ⟨hrel, hperm⟩
  · exact h hkind href b j₀ hb hbp hj₀ (hdl ▸ hreq.mono hle)
  · exact hwait hrel hperm

section

variable (h : Drains s)
include h

/-- **A transaction keeps the invariant** if it requeues no item of an
expired job. -/
theorem Drains.exec (hexec : op.exec size c s.db = .ok db')
    (hsub : ∀ tx ∈ settling, tx ∈ s.settling)
    (hwait : op.releases = false → ∀ tx ∈ settling, op.permit ≠ some tx.row.permitID)
    (hreq : ∀ ref, ref.job ∈ s.expired → ¬ Requeued s.db op c ref) :
    Drains { s with db := db', settling := settling } where
  due k hk := by
    obtain ⟨j, hj, hdue⟩ := h.due k hk
    obtain ⟨j', hj', hdl, -⟩ := (Op.exec_effect hexec).jobs k j hj
    exact ⟨j', hj', hdl ▸ hdue⟩
  held tx htx := by
    obtain ⟨id, a, hp, hrel, ha, hres⟩ := h.held tx (hsub tx htx)
    obtain ⟨a', ha', hres'⟩ := (Op.exec_effect hexec).reservation ha
    exact ⟨id, a', hp, hrel, ha', hres'.trans hres⟩
  harmless k hk tx htx := by
    obtain ⟨j, hj, -⟩ := h.due k hk
    exact (h.harmless k hk tx (hsub tx htx)).exec hj hexec fun hrel => hwait hrel tx htx
  drained k hk ref i href hi hidle := by
    rcases (Op.exec_effect hexec).idle hi hidle with ⟨b, hb, hbidle⟩ | hnone | hback
    · exact h.drained k hk ref b href hb hbidle
    · obtain ⟨j, hj, -⟩ := h.due k hk
      rw [href, hj] at hnone
      cases hnone
    · exact hreq ref (href ▸ hk) hback

/-- The commit of a settlement in flight requeues nothing of an expired
job. -/
theorem Drains.commit (htx : tx ∈ s.settling) (hk : ref.job ∈ s.expired) :
    ¬ Requeued s.db tx.op tx.clock ref := by
  rintro ⟨id, a, i, j, hp, ha, hkind, rfl, hi, hcur, hj, hreq⟩
  obtain ⟨id', a', hp', -, ha', hres⟩ := h.held tx htx
  obtain rfl := mem_unique hp hp'
  obtain rfl := mem_unique ha ha'
  have hrow : a.kind = tx.row.kind ∧ a.ref = tx.row.ref ∧ a.permitID = tx.row.permitID := by
    simp only [hres, and_self]
  rw [hrow.2.1] at hk hi hj
  exact h.harmless _ hk tx htx (hrow.1 ▸ hkind) rfl i j hi (hrow.2.2 ▸ hcur) hj hreq

/-- **`Expire` drains its job.** -/
theorem Drains.expire {scope : String} {j : JobRow}
    (hj : s.db.jobs.get? (scope, id) = some j) (hdue : j.deadline ≤ s.now)
    (htimely : s.Timely (scope, id)) (hexec : expire s.db scope id = .ok db') :
    Drains { s with db := db', expired := (scope, id) :: s.expired } := by
  have hop : (Op.expire scope id).exec (fun _ => 0) ⟨s.now, s.now, s.now, s.now⟩ s.db = .ok db' :=
    hexec
  have hkept : Drains { s with db := db', settling := s.settling } :=
    h.exec hop (fun _ htx => htx) (fun _ _ _ hp => by cases hp)
      fun ref _ ⟨_, _, _, _, hp, _⟩ => by cases hp
  refine ⟨?_, hkept.held, ?_, ?_⟩
  · rintro k (_ | ⟨_, hk⟩)
    · exact ⟨j, by rw [expire_frame hexec]; exact hj, hdue⟩
    · exact hkept.due k hk
  · rintro k (_ | ⟨_, hk⟩) tx htx
    · have hnow : tx.Harmless s.db (scope, id) := fun hkind href i j' hi _ hj' =>
        htimely tx htx hkind href i hi j' hj'
      exact hnow.exec hj hop fun _ hp => by cases hp
    · exact hkept.harmless k hk tx htx
  · rintro k (_ | ⟨_, hk⟩) ref i href hi hidle
    · exact (unexpired_of_idle (expire_items hexec) hi hidle).2 href
    · exact hkept.drained k hk ref i href hi hidle

/-- A settlement that starts now finds the expired jobs' deadlines
passed. -/
theorem Drains.begin {a : Attempt} (hrel : op.releases = true)
    (hp : op.permit = some id) (ha : s.db.attempts.get? id = some a) (hc : c.item = s.now) :
    Drains { s with settling := ⟨op, c, a, false⟩ :: s.settling } := by
  refine ⟨h.due, ?_, ?_, h.drained⟩
  · rintro tx (_ | ⟨_, htx⟩)
    · exact ⟨id, a, hp, hrel, ha, rfl⟩
    · exact h.held tx htx
  · rintro k hk tx (_ | ⟨_, htx⟩)
    · intro _ _ i j _ _ hj hreq
      obtain ⟨j', hj', hdue⟩ := h.due k hk
      obtain rfl := mem_unique hj hj'
      have hearly : c.item < j.deadline := hreq.early
      omega
    · exact h.harmless k hk tx htx

/-- Settlements in flight with the same operations, clocks and rows. -/
theorem Drains.of_settling
    (hsub : ∀ tx ∈ settling, ∃ t ∈ s.settling, t.op = tx.op ∧ t.clock = tx.clock ∧ t.row = tx.row) :
    Drains { s with settling := settling } := by
  refine ⟨h.due, ?_, ?_, h.drained⟩
  · intro tx htx
    obtain ⟨t, ht, hop, -, hrow⟩ := hsub tx htx
    exact hop ▸ hrow ▸ h.held t ht
  · intro k hk tx htx
    obtain ⟨t, ht, hop, hclock, hrow⟩ := hsub tx htx
    have := h.harmless k hk t ht
    simpa only [Settling.Harmless, hop, hclock, hrow] using this

theorem Drains.step (hs : DrainStep size Draining.Timely s s') : Drains s' := by
  cases hs with
  | wait hlater =>
    refine ⟨fun k hk => ?_, h.held, h.harmless, h.drained⟩
    obtain ⟨j, hj, hdue⟩ := h.due k hk
    exact ⟨j, hj, Int.le_trans hdue hlater⟩
  | begin op c hrel hp ha _ hc => exact h.begin hrel hp ha hc
  | touch hholds =>
    refine h.of_settling fun tx htx => ?_
    rw [hholds]
    rw [mem_append, mem_cons] at htx
    rcases htx with hm | rfl | hm
    · exact ⟨tx, mem_append_left _ hm, rfl, rfl, rfl⟩
    · exact ⟨_, mem_append_right _ mem_cons_self, rfl, rfl, rfl⟩
    · exact ⟨tx, mem_append_right _ (mem_cons_of_mem _ hm), rfl, rfl, rfl⟩
  | @commit tx before after _ hholds _ hexec =>
    have hmem : tx ∈ s.settling := hholds ▸ mem_append_right _ mem_cons_self
    obtain ⟨_, _, -, hrel, -⟩ := h.held tx hmem
    have hrest := (sublist_cons_self tx after).append_left before
    refine h.exec hexec (fun t ht => hholds ▸ hrest.subset ht) ?_ fun ref hk => h.commit hmem hk
    intro hnot
    rw [hrel] at hnot
    cases hnot
  | @abort tx before after hholds =>
    have hrest := (sublist_cons_self tx after).append_left before
    exact h.of_settling fun t ht => ⟨t, hholds ▸ hrest.subset ht, rfl, rfl, rfl⟩
  | expire hj hdue _ _ htimely hexec => exact h.expire hj hdue htimely hexec
  | other op c hrel _ hwait hexec =>
    refine h.exec hexec (fun _ ht => ht) (fun _ => hwait) ?_
    rintro ref - ⟨_, _, _, _, -, -, -, -, -, -, -, hreq⟩
    rw [hreq.releases] at hrel
    cases hrel

end

theorem drains_of_reach (hr : (draining size Draining.Timely).Reach s) : Drains s := by
  refine hr.invariant (P := Drains) ?_ fun s s' _ h hs => h.step hs
  rintro s ⟨hdb, hset, hexp⟩
  refine ⟨?_, ?_, ?_, ?_⟩ <;> simp [hset, hexp]

/-- **An expired job drains.** In every run in which no `Expire` commits
while a settlement in flight is about to return an item of its job, no
item of an expired job is left queued or waiting without a permit. -/
theorem expired_job_drains (hr : (draining size Draining.Timely).Reach s)
    {job : String × String} (he : job ∈ s.expired) (href : ref.job = job)
    (hi : s.db.items.get? ref = some i) :
    ¬ ((i.state = .queued ∨ i.state = .waiting) ∧ i.currentPermit = none) := by
  rintro ⟨hstate, hfree⟩
  refine (drains_of_reach hr).drained job he ref i href hi ⟨?_, hfree⟩
  rcases hstate with h | h <;> rw [h] <;> rfl

/-! ## A reservation that lapses around the deadline -/

/-- Transactions that neither release an item nor expire a job run as they
do in the ledger. -/
theorem draining_of_execAll {timely : Draining → String × String → Prop}
    {script : List (Op × Clock)} {now : ℤ}
    (hplain : ∀ e ∈ script, e.1.releases = false ∧ e.1.expires = false)
    (hr : (draining size timely).Reach ⟨now, db, [], []⟩)
    (h : execAll size script db = .ok db') : (draining size timely).Reach ⟨now, db', [], []⟩ := by
  exact execAll_induction (P := fun d => (draining size timely).Reach ⟨now, d, [], []⟩)
    (fun e he _ _ hd hx => hd.step (.other e.1 e.2 (hplain e he).1 (hplain e he).2 (by simp) hx)) h hr

namespace Sample

/-- The sample reservation's expiry at second `t`, with the job's `Expire`
between its clock reading and its commit, leaves the item in `state`. -/
def lapses (t : ℤ) (state : ItemState) (db : DB) : Bool :=
  ((Op.expireReservation permit).exec Sample.size (clock t) db).isOk
    && (db.attempts.get? permit).any (fun a => a.kind = .job)
    && (db.jobs.get? (scope, job)).any (fun j => j.deadline = 1100 * second)
    && match expire db scope job with
      | .error _ => false
      | .ok db₁ =>
        match (Op.expireReservation permit).exec Sample.size (clock t) db₁ with
        | .error _ => false
        | .ok db₂ => (db₂.items.get? Sample.ref).any fun i => i.state = state ∧ i.currentPermit = none

/-- The run: the expiry reads the clock, the deadline comes, `Expire`
commits, and the expiry commits after it. -/
theorem lapses_run (timely : Draining → String × String → Prop) (t : ℤ) (state : ItemState)
    (ht : 1000 ≤ t ∧ t ≤ 1100)
    (hlead : Leads Sample.size reserved .empty fun db => lapses t state db = true)
    (htimely : ∀ db a j, db.jobs.get? (scope, job) = some j → j.deadline = 1100 * second →
      timely ⟨1100 * second, db, [⟨.expireReservation permit, clock t, a, false⟩], []⟩ (scope, job)) :
    ∃ s, (draining Sample.size timely).Reach s ∧ (scope, job) ∈ s.expired
      ∧ ∃ i, s.db.items.get? Sample.ref = some i ∧ i.state = state ∧ i.currentPermit = none := by
  obtain ⟨db, hexec, hlapse⟩ := hlead
  have hreach : (draining Sample.size timely).Reach ⟨1000 * second, db, [], []⟩ :=
    draining_of_execAll (by decide) (.init ⟨rfl, rfl, rfl⟩) hexec
  simp only [lapses, Bool.and_eq_true, Option.any_eq_true, decide_eq_true_eq] at hlapse
  obtain ⟨⟨⟨hbegin, a, ha, hkind⟩, j, hj, hdeadline⟩, hrest⟩ := hlapse
  obtain ⟨db₀, hbegin⟩ := exists_of_isOk hbegin
  split at hrest
  · cases hrest
  rename_i db₁ hexpire
  split at hrest
  · cases hrest
  rename_i db₂ hcommit
  simp only [Option.any_eq_true, decide_eq_true_eq] at hrest
  obtain ⟨i, hi, hfinal⟩ := hrest
  -- the clock is read at `t`, and the deadline comes before the commit
  have h₁ := System.Reach.step hreach
    (.wait (t := t * second) (by simp only [second]; omega))
  have h₂ := System.Reach.step h₁
    (.begin (.expireReservation permit) (clock t) rfl rfl ha (by simp) rfl hbegin)
  have h₃ := System.Reach.step h₂
    (.wait (t := 1100 * second) (by simp only [second]; omega))
  have h₄ := System.Reach.step h₃
    (.expire hj (by simp [hdeadline]) (by simp) (by simp) (htimely db a j hj hdeadline) hexpire)
  have h₅ := System.Reach.step h₄ (@DrainStep.touch _ _ _ _ [] [] rfl hkind (by simp))
  have h₆ := System.Reach.step h₅ (@DrainStep.commit _ _ _ _ [] [] _ rfl (fun _ => rfl) hcommit)
  exact ⟨_, h₆, mem_cons_self, i, hi, hfinal⟩

end Sample

/-- **A lapsed reservation outlives `Expire`.** Its expiry reads the clock
one second before the deadline and commits after the job's `Expire`: the
item is queued again, for nobody. -/
theorem expired_job_requeues :
    ∃ s, (draining Sample.size Draining.AnyTime).Reach s
      ∧ (Sample.scope, Sample.job) ∈ s.expired
      ∧ ∃ i, s.db.items.get? Sample.ref = some i ∧ i.state = .queued ∧ i.currentPermit = none :=
  Sample.lapses_run _ 1099 .queued (by decide) (by decide +kernel) fun _ _ _ _ _ => trivial

/-- The same reservation, whose expiry reads the clock at the deadline. -/
theorem expired_job_drains_sample :
    ∃ s i, (draining Sample.size Draining.Timely).Reach s
      ∧ (Sample.scope, Sample.job) ∈ s.expired ∧ s.db.items.get? Sample.ref = some i
      ∧ i.currentPermit = none
      ∧ ¬ ((i.state = .queued ∨ i.state = .waiting) ∧ i.currentPermit = none) := by
  obtain ⟨s, hr, he, i, hi, -, hfree⟩ :=
    Sample.lapses_run Draining.Timely 1100 .failed (by decide) (by decide +kernel) (by
      intro db a j hj hdeadline tx htx _ _ i _ j' hj' hreq
      obtain rfl := mem_unique hj hj'
      obtain rfl := mem_singleton.1 htx
      have hearly : (Sample.clock 1100).item < j.deadline := hreq.early
      simp only [Sample.clock, hdeadline] at hearly
      omega)
  exact ⟨s, i, hr, he, hi, hfree, expired_job_drains hr he rfl hi⟩

end HardenLlm.Batch
