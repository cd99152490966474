import Mathlib.Data.List.Perm.Subperm
import HardenLlm.Batch.Evidence
/-!
# Provider calls hold slots

The pool releases a slot when a row it reads is stopped. Stop evidence is
true of the invocation it names, so a permit whose invocation is still in
the provider is never read stopped, however old the row: its slot is
there. One nonce owns a permit, so no two calls share a slot, and the
calls that run at once are no more than the slots, which are no more than
the largest concurrency a grant was made under.
-/

namespace HardenLlm.Batch

open List

variable {H : Hashes} {size : AttemptObservation → ℕ} {s : Workers} {db db' : DB}

/-- **A provider call of this pool is running**: it was entered and has not
returned. -/
def Workers.Running (s : Workers) (nonce permit : String) : Prop :=
  (∃ kind, s.flight nonce = .inside kind permit)
    ∧ ∃ a, s.db.attempts.get? permit = some a ∧ a.poolID = s.run.pool.poolID

section

variable (hr : (workers H size).Reach s)
include hr

/-- The row of a running call is its nonce's and carries no stop. -/
theorem unstopped_of_running {nonce permit : String} {a : Attempt}
    (h : s.Running nonce permit) (ha : s.db.attempts.get? permit = some a) :
    a.claimID = nonce ∧ a.stoppedAt = none := by
  have htrue := truthful_of_reach hr
  obtain ⟨⟨kind, hinside⟩, -⟩ := h
  obtain ⟨hne, b, hb, hclaim, -⟩ := htrue.entered nonce kind permit (by rw [hinside]; rfl)
  obtain rfl := Option.mem_unique hb ha
  refine ⟨hclaim, ?_⟩
  by_contra hstop
  have hover := (htrue.rows permit b hb (hclaim ▸ hne)).stopped hstop
  exact not_over_of_inside hinside (hclaim ▸ hover)

/-- **A running call holds its slot.** -/
theorem slot_of_running {nonce permit : String}
    (h : s.Running nonce permit) : s.run.pool.HasSlot permit := by
  have hjoint := accounted_of_reach (workers_joint.reach hr)
  obtain ⟨a, ha, hpool⟩ := h.2
  obtain ⟨p, hp, hstored⟩ := (hjoint.rows permit a ha).2 hpool
  have hid : p.permitID = permit := by
    have hrow : a.permitID = p.permitID := by rw [hstored]; rfl
    rw [← hrow]
    exact permitID_of_get? ha
  obtain hslot | ⟨b, hb, hperm, hstop⟩ := hjoint.slots p hp
  · exact hid ▸ hslot
  · -- the row the slot was given up for is an earlier version of this one
    obtain ⟨b', hb', hlater⟩ := hjoint.reads b hb
    have hsame : b' = a := by
      rw [hperm, hid] at hb'
      exact Option.mem_unique hb' ha
    rw [hsame] at hlater
    exact absurd (unstopped_of_running hr h ha).2 (hlater.stopKept hstop)

/-- No two running calls share a permit. -/
theorem running_inj {n n' permit : String}
    (h : s.Running n permit) (h' : s.Running n' permit) : n = n' := by
  obtain ⟨a, ha, -⟩ := h.2
  exact (unstopped_of_running hr h ha).1.symm.trans (unstopped_of_running hr h' ha).1

/-- Distinct running calls hold distinct permits. -/
theorem permits_of_running {ns : List String} (hd : ns.Nodup)
    (h : ∀ n ∈ ns, ∃ permit, s.Running n permit) :
    ∃ ps : List String, ps.length = ns.length ∧ ps.Nodup
      ∧ ∀ p ∈ ps, ∃ n ∈ ns, s.Running n p := by
  induction ns with
  | nil => exact ⟨[], rfl, nodup_nil, by simp⟩
  | cons n ns ih =>
    obtain ⟨hn, hd⟩ := nodup_cons.1 hd
    obtain ⟨ps, hlen, hnodup, hps⟩ := ih hd (forall_mem_cons.1 h).2
    obtain ⟨p, hp⟩ := h n mem_cons_self
    refine ⟨p :: ps, by simp [hlen], nodup_cons.2 ⟨?_, hnodup⟩, ?_⟩
    · intro hmem
      obtain ⟨m, hm, hrun⟩ := hps p hmem
      exact hn (running_inj hr hp hrun ▸ hm)
    · intro q hq
      obtain rfl | hq := mem_cons.1 hq
      · exact ⟨n, mem_cons_self, hp⟩
      · obtain ⟨m, hm, hrun⟩ := hps q hq
        exact ⟨m, mem_cons_of_mem _ hm, hrun⟩

end

/-- **Capacity containment.** Over any interleaving of the pool, its
ledger and their workers, every provider call that runs holds the slot of
its own permit, no two share one, and so the calls that run at once are at
most the slots, which are at most the largest concurrency in force at any
grant. -/
theorem running_calls_hold_slots (hr : (workers H size).Reach s) :
    (∀ n permit, s.Running n permit → s.run.pool.HasSlot permit)
      ∧ (∀ n n' permit, s.Running n permit → s.Running n' permit → n = n')
      ∧ (∀ ns : List String, ns.Nodup → (∀ n ∈ ns, ∃ permit, s.Running n permit) →
        ns.length ≤ s.run.pool.outstanding.length)
      ∧ (s.run.pool.outstanding.length : ℤ) ≤ s.run.peak := by
  refine ⟨fun n permit => slot_of_running hr, fun n n' permit => running_inj hr, ?_, ?_⟩
  · intro ns hd hrun
    obtain ⟨ps, hlen, hnodup, hps⟩ := permits_of_running hr hd hrun
    have hsub : ps ⊆ s.run.pool.outstanding.map (·.id) := by
      intro p hp
      obtain ⟨n, -, hn⟩ := hps p hp
      exact slot_of_running hr hn
    have hle := (subperm_of_subset hnodup hsub).length_le
    rw [length_map] at hle
    exact hlen ▸ hle
  · exact (minted_of_reach (joint_pools.reach (workers_joint.reach hr))).bounded

/-! ## A call in the provider -/

/-- Transactions without evidence run as they do in the ledger. -/
theorem workers_of_execAll {script : List (Op × Clock)}
    (hoffer : ∀ e ∈ script, s.joint.Offers e.1) (hplain : ∀ e ∈ script, e.1.testifies = false)
    (hr : (workers H size).Reach s) (h : execAll size script s.db = .ok db') :
    (workers H size).Reach (s.commits db') := by
  exact execAll_induction (P := fun d => (workers H size).Reach (s.commits d))
    (fun e he _ _ hd hx => hd.step (.exec e.1 e.2 (hoffer e he) (hplain e he) hx)) h hr

namespace Sample

/-- The sample pool with its first grant. -/
def starting : PoolRun := fresh.act hashes (1000 * second) (.grant readyItem)

/-- That grant. -/
def grant : Reservation := fresh.pool.reservationFor hashes (1000 * second) readyItem

theorem starting_granted : starting.granted = [grant] ∧ starting.pool.poolID = "pool" := by
  decide +kernel

/-- The sample item submitted and its grant reserved. -/
def granted : List (Op × Clock) := submitted ++ [(.reserveAttempt grant, clock 1000)]

/-- What `Load` returned of the sample item. -/
def stored : StoredItem :=
  { generation := { content := "", timeoutMS := 300000 }, attempt := 0, readyAt := 1000 * second
    deadline := 1100 * second, outcome := {} }

/-- The row an invocation of the grant has dispatched, and the database
then. -/
def entering (db : DB) : Option (Attempt × DB) :=
  match claimAttempt db grant.permitID nonce (clock 1001) with
  | .error _ => none
  | .ok (_, db₁) =>
    match markDispatch db₁ grant.permitID nonce (clock 1002) with
    | .error _ => none
    | .ok (a, db₂) =>
      if a.poolID = "pool" ∧ a.kind = .job
          ∧ preflight a (some stored) false (1001 * second) (1001 * second) = none
          ∧ a.late (1002 * second) (1002 * second) = false then some (a, db₂)
      else none

end Sample

open Sample

/-- An invocation of the sample grant, in the provider. -/
theorem Sample.entering_run {a : Attempt}
    (hexec : execAll Sample.size granted .empty = .ok db)
    (hin : entering db = some (a, db')) :
    ∃ s, (workers hashes Sample.size).Reach s ∧ s.run = starting ∧ s.db = db'
      ∧ s.flight nonce = .inside .job grant.permitID
      ∧ db'.attempts.get? grant.permitID = some a ∧ a.poolID = "pool" := by
  unfold entering at hin
  split at hin
  · cases hin
  rename_i b db₁ hclaim
  split at hin
  · cases hin
  rename_i b' db₂ hdispatch
  split_ifs at hin with hchecks
  cases hin
  obtain ⟨hpool, hkind, hpre, hlate⟩ := hchecks
  obtain ⟨b₀, hcommits⟩ := markDispatch_commits hdispatch
  have hrow := hcommits.attempts.get_self
  have hinit : (workers hashes Sample.size).Reach
      ⟨⟨.empty, fun _ => .idle, []⟩, fun _ => .outside, [], [], fresh, []⟩ :=
    .init ⟨⟨rfl, fun _ => rfl, rfl⟩, ⟨⟨"pool", 2, policy, by decide, rfl, rfl, rfl⟩, rfl, rfl⟩,
      fun _ => rfl, rfl, rfl⟩
  have hlater : fresh.now ≤ 1000 * second := by decide
  have h₁ := System.Reach.step hinit (.act (1000 * second) (.grant readyItem) hlater trivial)
  have hmem : grant ∈ starting.granted := by
    rw [starting_granted.1]
    exact mem_singleton.2 rfl
  have hname : grant.workflowID
      = PoolState.workflowFor grant.kind grant.permitID := rfl
  have h₂ := workers_of_execAll ?_ ?_ h₁ hexec
  · have h₃ := System.Reach.step h₂ (.call (.claim rfl hclaim))
    have h₄ := System.Reach.step h₃ (.call (.dispatch (Function.update_self ..) hdispatch))
    have h₅ := System.Reach.step h₄
      (.enter (Function.update_self ..) rfl hrow (.job stored hpre hlate))
    refine ⟨_, h₅, rfl, rfl, ?_, hrow, hpool⟩
    simp [Workers.flies, hkind]
  · intro e he
    simp only [granted, submitted, mem_append, mem_cons, not_mem_nil, or_false] at he
    obtain (rfl | rfl | rfl) | rfl := he
    · trivial
    · trivial
    · trivial
    · exact ⟨hname, fun _ => hmem⟩
  · intro e he
    simp only [granted, submitted, mem_append, mem_cons, not_mem_nil, or_false] at he
    obtain (rfl | rfl | rfl) | rfl := he <;> rfl

/-- The sample invocation runs, in the one slot there is. -/
theorem running_calls_hold_slots_sample :
    ∃ s, (workers hashes Sample.size).Reach s
      ∧ s.Running nonce grant.permitID
      ∧ s.run.pool.HasSlot grant.permitID := by
  have hlead : Leads Sample.size granted .empty fun db =>
      (entering db).isSome = true := by
    decide +kernel
  obtain ⟨db, hexec, hdb⟩ := hlead
  obtain ⟨⟨a, db'⟩, hin⟩ := Option.isSome_iff_exists.1 hdb
  obtain ⟨s, hr, hrun, hs, hflight, hrow, hpool⟩ := entering_run hexec hin
  have hrunning : s.Running nonce grant.permitID := by
    refine ⟨⟨.job, hflight⟩, a, by rw [hs]; exact hrow, ?_⟩
    rw [hrun, hpool, starting_granted.2]
  exact ⟨s, hr, hrunning, (running_calls_hold_slots hr).1 _ _ hrunning⟩

end HardenLlm.Batch
