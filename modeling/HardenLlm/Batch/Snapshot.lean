import HardenLlm.Batch.Cooldown
import HardenLlm.Batch.Window
/-!
# The pool can always continue as new

A snapshot is refused if the retained padding is not the one the cooling
waits for, or if there are too many intents, permits or retirements. None
of this happens: padding is chosen with the end of the wait and dropped
with it, and every list is bounded where it grows.
-/

namespace HardenLlm.Batch

open List PoolState

variable {H : Hashes}

namespace PoolState

variable {s s' : PoolState} {t : ℤ} {a : Attempt} {slot : PoolPermit}

/-! ## Padding -/

/-- **A retained padding is the one the cooling waits for.** -/
def Padded (s : PoolState) : Prop :=
  ∀ p ∈ s.recoveryPadding, p.floor ≠ 0 ∧ p.floor ≤ p.expiry ∧ p.expiry - p.floor ≤ second
    ∧ s.controller.cooling = true ∧ s.controller.nextEligible = p.expiry

/-- The wait and its padding are left alone. -/
structure SameWait (s s' : PoolState) : Prop where
  recoveryPadding : s'.recoveryPadding = s.recoveryPadding
  cooling : s'.controller.cooling = s.controller.cooling
  nextEligible : s'.controller.nextEligible = s.controller.nextEligible

theorem Padded.sameWait (h : s.Padded) (hw : s.SameWait s') : s'.Padded := by
  intro p hp
  rw [hw.recoveryPadding] at hp
  rw [hw.cooling, hw.nextEligible]
  exact h p hp

theorem Padded.acknowledgeStarts (started : List String) :
    ∀ {s : PoolState}, s.Padded → (s.acknowledgeStarts started).Padded := by
  induction started with
  | nil => exact fun h => h
  | cons id started ih =>
    intro s h
    have hdrop : (s.dropIntent id).Padded := h.sameWait ⟨rfl, rfl, rfl⟩
    exact ih hdrop

theorem Padded.configure (h : s.Padded) (p : Policy) : (s.configure p).Padded := by
  obtain ⟨hc, hn, -⟩ := configure_waits s p
  refine h.sameWait ⟨?_, hc, hn⟩
  unfold PoolState.configure
  split <;> rfl

/-- **A padded floor is within its second.** What is retained from before
must be what the cooling still waits for, unless the wait moved on. -/
theorem Padded.padRecoveryFloor {previous : ℤ}
    (h : ∀ p ∈ s.recoveryPadding, p.floor ≠ 0 ∧ p.floor ≤ p.expiry ∧ p.expiry - p.floor ≤ second
      ∧ (s.controller.cooling = true → previous = p.expiry
        ∧ previous ≤ s.controller.nextEligible)) : (s.padRecoveryFloor H previous).Padded := by
  unfold PoolState.padRecoveryFloor
  dsimp only
  split
  · exact fun p hp => (nomatch hp)
  · rename_i hwaits
    simp only [not_or, Bool.not_eq_false] at hwaits
    split
    · -- the choice is kept
      rename_i hkept
      intro p hp
      obtain ⟨q, hq, hexpiry⟩ := (Option.any_eq_true _ _).1 hkept
      obtain rfl := Option.mem_unique hp hq
      obtain ⟨hf, hle, hsec, -⟩ := h p hp
      exact ⟨hf, hle, hsec, hwaits.1, by simpa using hexpiry⟩
    · rename_i hmoved
      split
      · -- the wait did not move, so a retained padding would have been kept
        rename_i hstays
        intro p hp
        obtain ⟨-, -, -, hend⟩ := h p hp
        obtain ⟨hprev, hle⟩ := hend hwaits.1
        refine absurd ?_ hmoved
        rw [hp]
        simp only [Option.any_some, decide_eq_true_eq]
        omega
      · split
        · exact fun p hp => (nomatch hp)
        · rename_i hjitter
          simp only [not_or, Int.not_le, Int.not_lt] at hjitter
          rintro p ⟨⟩
          have hmod := Nat.mod_lt (H.digest s.poolID s.episode s.probeID s.policyRevision
            s.controller.nextEligible) (Nat.succ_pos s.controller.policy.recoveryJitterMS.toNat)
          have hms : millisecond * 1000 = second := by decide
          have hpos : (0 : ℤ) < millisecond := by decide
          generalize H.digest s.poolID s.episode s.probeID s.policyRevision
            s.controller.nextEligible % (s.controller.policy.recoveryJitterMS.toNat + 1) = n at hmod ⊢
          have hn : (n : ℤ) ≤ 1000 := by omega
          have hpad : (n : ℤ) * millisecond ≤ second := by
            calc (n : ℤ) * millisecond ≤ 1000 * millisecond :=
                  Int.mul_le_mul_of_nonneg_right hn (Int.le_of_lt hpos)
              _ = second := by omega
          have hnonneg : 0 ≤ (n : ℤ) * millisecond :=
            Int.mul_nonneg (Int.natCast_nonneg n) (Int.le_of_lt hpos)
          refine ⟨hwaits.2, ?_, ?_, hwaits.1, rfl⟩
          · dsimp only
            omega
          · dsimp only
            omega

/-- A completion moves the wait on or ends it. -/
theorem Padded.applyCompletion (h : s.Padded) (now : ℤ) (a : Attempt) (out : Outcome)
    (probe : Bool) : (s.applyCompletion H now a out probe).Padded := by
  have hmoved : s.controller.Waits (s.completion now a out probe).controller
      ∨ (s.completion now a out probe).controller.cooling = false :=
    (Controller.complete_waits ..).imp id fun h => h.2.2
  have hpad : ((s.completion now a out probe).padRecoveryFloor H
      s.controller.nextEligible).Padded := by
    refine Padded.padRecoveryFloor fun p hp => ?_
    obtain ⟨hf, hle, hsec, hcool, hend⟩ := h p hp
    refine ⟨hf, hle, hsec, fun hcool' => ⟨hend, ?_⟩⟩
    obtain hw | hended := hmoved
    · exact hw.floor hcool
    · simp [hended] at hcool'
  unfold PoolState.applyCompletion
  dsimp only
  split
  · exact hpad.sameWait ⟨rfl, rfl, rfl⟩
  · exact hpad

theorem Padded.applyOutcome (h : s.Padded) (now : ℤ) (a : Attempt) (out : Outcome) :
    (s.applyOutcome H now a out).Padded := by
  unfold PoolState.applyOutcome
  dsimp only
  split
  · unfold applyNeverDispatched
    dsimp only
    split_ifs <;> exact h.sameWait ⟨rfl, rfl, rfl⟩
  · split_ifs
    · exact h
    · exact h.sameWait ⟨rfl, rfl, rfl⟩
    · exact h
    · exact h.sameWait ⟨rfl, rfl, rfl⟩
    · exact h.applyCompletion now a out _

theorem Padded.observe (h : s.Padded) (t : ℤ) (a : Attempt) : (s.observe H t a).Padded := by
  have hu := heard_dropIntent_undisturbed s t a
  have hheard : ((s.heard t a).dropIntent a.permitID).Padded :=
    h.sameWait ⟨hu.recoveryPadding, hu.cooling, hu.nextEligible⟩
  refine observe_rule (P := Padded) h hheard hheard (hheard.applyOutcome t a) fun s₁ h₁ => ?_
  unfold settleSlot
  split <;> exact h₁.sameWait ⟨rfl, rfl, rfl⟩

theorem Padded.resume (h : s.Padded) (t : ℤ) : (s.resume H t).Padded := by
  unfold PoolState.resume
  split
  · exact h.sameWait ⟨rfl, rfl, rfl⟩
  · refine Padded.padRecoveryFloor fun p hp => ?_
    obtain ⟨hf, hle, hsec, -, hend⟩ := h p hp
    refine ⟨hf, hle, hsec, fun _ => ⟨hend, ?_⟩⟩
    simp only [recool]
    omega

/-! ## Bounds -/

/-- The permits whose claim is not confirmed. -/
def pending (s : PoolState) : ℕ := s.outstanding.countP fun p => !p.claimed

/-- The permits that are out or wait for their retirement. -/
def held (s : PoolState) : ℕ := s.outstanding.length + s.requestRetirements.length

/-- The lists may only get shorter. -/
structure Shrinks (s s' : PoolState) : Prop where
  pending : s'.pending ≤ s.pending
  held : s'.held ≤ s.held
  intents : s'.startIntents.length ≤ s.startIntents.length
  pendingClaimLimit : s'.pendingClaimLimit = s.pendingClaimLimit
  recoveryJitterVersion : s'.recoveryJitterVersion = s.recoveryJitterVersion

theorem Shrinks.trans {s'' : PoolState} (h : s.Shrinks s') (h' : s'.Shrinks s'') : s.Shrinks s'' :=
  ⟨Nat.le_trans h'.pending h.pending, Nat.le_trans h'.held h.held,
    Nat.le_trans h'.intents h.intents, h'.pendingClaimLimit.trans h.pendingClaimLimit,
    h'.recoveryJitterVersion.trans h.recoveryJitterVersion⟩

theorem SameLists.shrinks (h : s.SameLists s') : s.Shrinks s' := by
  refine ⟨?_, ?_, ?_, h.pendingClaimLimit, h.recoveryJitterVersion⟩
  · rw [PoolState.pending, h.outstanding, PoolState.pending]
  · rw [PoolState.held, h.outstanding, h.requestRetirements, PoolState.held]
  · rw [h.startIntents]

theorem shrinks_dropIntent (s : PoolState) (id : String) : s.Shrinks (s.dropIntent id) :=
  ⟨Nat.le_refl _, Nat.le_refl _, eraseP_sublist.length_le, rfl, rfl⟩

theorem shrinks_acknowledgeStarts (started : List String) :
    ∀ s : PoolState, s.Shrinks (s.acknowledgeStarts started) := by
  induction started with
  | nil => exact fun s => (SameLists.refl s).shrinks
  | cons id started ih => exact fun s => (shrinks_dropIntent s id).trans (ih (s.dropIntent id))

/-- A claim that is taken in can only make fewer claims pending. -/
theorem shrinks_heard (hf : s.Finds a slot) : s.Shrinks (s.heard t a) := by
  have hlists : (s.heard t a).requestRetirements = s.requestRetirements
      ∧ (s.heard t a).startIntents.length ≤ s.startIntents.length
      ∧ (s.heard t a).pendingClaimLimit = s.pendingClaimLimit
      ∧ (s.heard t a).recoveryJitterVersion = s.recoveryJitterVersion := by
    unfold heard
    split
    · unfold observeClaim anchorWindow
      split <;> exact ⟨rfl, eraseP_sublist.length_le, rfl, rfl⟩
    · exact ⟨rfl, Nat.le_refl _, rfl, rfl⟩
  obtain ⟨hretired, hintents, hlimit, hversion⟩ := hlists
  refine ⟨?_, ?_, hintents, hlimit, hversion⟩
  · obtain hsame | hmod := heard_outstanding s t a
    · rw [PoolState.pending, hsame, PoolState.pending]
    · have hcount := countP_modifyFirst (f := fun p : PoolPermit => { p with claimed := true })
        (q := fun p => !p.claimed) hf.found
      rw [PoolState.pending, hmod, PoolState.pending]
      simp only [Bool.not_true, Bool.false_eq_true, if_false] at hcount
      omega
  · have hlength := congrArg List.length (heard_ids s t a)
    simp only [length_map] at hlength
    rw [PoolState.held, hretired, hlength, PoolState.held]

/-- A permit moves from one list to the other. -/
theorem shrinks_settleSlot (h : a.permitID ∈ s.outstanding.map (·.id)) :
    s.Shrinks (s.settleSlot a) := by
  obtain ⟨slot, hslot, hid⟩ := mem_map.1 h
  unfold settleSlot
  split
  · refine ⟨eraseP_sublist.countP_le, ?_, Nat.le_refl _, rfl, rfl⟩
    have herase := length_eraseP_of_mem (p := fun p : PoolPermit => decide (p.id = a.permitID))
      hslot (by simpa using hid)
    have hpos := length_pos_of_mem hslot
    simp only [PoolState.held, herase]
    split
    · rw [length_append, length_singleton]
      omega
    · omega
  · -- the slot stays, with its claim as it was
    have hclaims : (modifyFirst (fun p : PoolPermit => decide (p.id = a.permitID))
        (fun p => { p with
          applied := true, revision := a.settlementRevision, awaitingStop := true })
        s.outstanding).map (·.claimed) = s.outstanding.map (·.claimed) := by
      rw [map_modifyFirst]
      exact fun _ => rfl
    refine ⟨Nat.le_of_eq ?_, Nat.le_of_eq ?_, Nat.le_refl _, rfl, rfl⟩
    · have hcount := congrArg (List.countP fun claimed => !claimed) hclaims
      rwa [countP_map, countP_map] at hcount
    · have hlength := congrArg List.length hclaims
      simp only [length_map] at hlength
      simp only [PoolState.held, hlength]

theorem shrinks_observe (s : PoolState) (t : ℤ) (a : Attempt) : s.Shrinks (s.observe H t a) := by
  -- the slot that was found is still there once the claim is taken in
  have hheard : ∀ {slot : PoolPermit}, s.Finds a slot →
      s.Shrinks ((s.heard t a).dropIntent a.permitID)
        ∧ a.permitID ∈ ((s.heard t a).dropIntent a.permitID).outstanding.map (·.id) := by
    intro slot hf
    refine ⟨(shrinks_heard hf).trans (shrinks_dropIntent _ _), ?_⟩
    have hids : ((s.heard t a).dropIntent a.permitID).outstanding.map (·.id)
        = s.outstanding.map (·.id) := heard_ids s t a
    rw [hids]
    exact mem_map.2 ⟨slot, hf.mem⟩
  have hobs := observes (H := H) s t a
  generalize s.observe H t a = s' at hobs ⊢
  cases hobs with
  | missed => exact (SameLists.refl s).shrinks
  | heard hf => exact shrinks_heard hf
  | stop hf =>
    obtain ⟨hshrinks, hmem⟩ := hheard hf
    exact hshrinks.trans (shrinks_settleSlot hmem)
  | apply hf =>
    obtain ⟨hshrinks, hmem⟩ := hheard hf
    have hsame := sameLists_applyOutcome (H := H) ((s.heard t a).dropIntent a.permitID) t a
    refine (hshrinks.trans (hsame _).shrinks).trans (shrinks_settleSlot ?_)
    rw [(hsame _).outstanding]
    exact hmem

/-- A pool that admits has room in every list. -/
theorem admits_room (h : s.admits t = true) :
    s.pendingClaimsFull = false ∧ s.startIntents.length < maximumStartIntents ∧ s.held < 1000 := by
  unfold admits at h
  split_ifs at h with hstop
  simp only [not_or, Bool.not_eq_true, Nat.not_le] at hstop
  obtain ⟨-, -, -, -, hpending, hintents, hheld⟩ := hstop
  refine ⟨hpending, hintents, ?_⟩
  unfold held
  omega

/-! ## Every reachable state -/

/-- **What a snapshot checks, and what keeps it true.** -/
structure Portable (s : PoolState) : Prop where
  policy : s.controller.policy.Valid
  padded : s.Padded
  pendingClaimLimit : s.pendingClaimLimit = 32
  recoveryJitterVersion : s.recoveryJitterVersion = 1
  intents : s.startIntents.length ≤ maximumStartIntents
  held : s.held ≤ 1000
  pending : s.pending ≤ 32

theorem Portable.shrink (h : s.Portable) (hs : s.Shrinks s') (hv : s'.controller.policy.Valid)
    (hp : s'.Padded) : s'.Portable :=
  ⟨hv, hp, hs.pendingClaimLimit.trans h.pendingClaimLimit,
    hs.recoveryJitterVersion.trans h.recoveryJitterVersion, Nat.le_trans hs.intents h.intents,
    Nat.le_trans hs.held h.held, Nat.le_trans hs.pending h.pending⟩

theorem Portable.refreshWindow (h : s.Portable) (t : ℤ) : (s.refreshWindow t).Portable := by
  obtain ⟨hcool, hnext, -⟩ := refreshWindow_waits s t
  have hpad : (s.refreshWindow t).recoveryPadding = s.recoveryPadding := by
    unfold PoolState.refreshWindow
    split <;> rfl
  refine h.shrink (sameLists_refreshWindow s t).shrinks ?_ (h.padded.sameWait ⟨hpad, hcool, hnext⟩)
  rw [PoolRun.refreshWindow_policy]
  exact h.policy

/-- A grant fills one place in every list. -/
theorem Portable.granted (h : s.Portable) (ha : s.admits t = true) (p : Reservation) :
    (s.granted t p).Portable := by
  obtain ⟨hpending, hintents, hheld⟩ := admits_room ha
  have hclaims : s.pending < 32 := by
    simp only [pendingClaimsFull, h.pendingClaimLimit, decide_eq_false_iff_not] at hpending
    unfold PoolState.pending
    omega
  refine ⟨h.policy, ?_, h.pendingClaimLimit, h.recoveryJitterVersion, ?_, ?_, ?_⟩
  · have hidle := (admits_iff ha).1
    exact h.padded.sameWait ⟨rfl, (grantController_probe t hidle).2.1,
      Controller.start_nextEligible ..⟩
  · simp only [PoolState.granted, length_append, length_singleton]
    omega
  · unfold PoolState.held at hheld ⊢
    simp only [PoolState.granted, length_append, length_singleton]
    omega
  · have hone : (s.granted t p).pending = s.pending + 1 := by
      simp [PoolState.pending, PoolState.granted]
    omega

/-- What a policy asks of the padding. -/
theorem Portable.validRecoveryPadding (h : s.Portable) : s.validRecoveryPadding = true := by
  obtain ⟨-, -, -, -, -, -, -, -, -, hjitter, hjitter', -⟩ := h.policy
  unfold PoolState.validRecoveryPadding
  rw [h.recoveryJitterVersion, if_neg (by omega)]
  cases hp : s.recoveryPadding with
  | none => rfl
  | some p =>
    obtain ⟨hf, hle, hsec, hcool, hend⟩ := h.padded p hp
    simp [hf, hle, hsec, hcool, hend]

end PoolState

/-- One act keeps what a snapshot checks. -/
theorem PoolRun.act_portable {r : PoolRun} (h : r.pool.Portable) (t : ℤ) {act : PoolAct}
    (htidy : ∀ k, act = .housekeep k → k.Tidy r.pool) : (r.act H t act).pool.Portable := by
  cases act with
  | grant item =>
    obtain hno | ⟨p, hok, hpool, -⟩ := act_grant_ok (H := H) r t item
    · rw [hno]
      exact h.refreshWindow t
    · rw [hpool]
      exact (h.refreshWindow t).granted (grant_admits hok).1 p
  | refresh => exact h.refreshWindow t
  | observe a =>
    have hpolicy := (observe_window (H := H) r.pool t a).policy
    exact h.shrink (PoolState.shrinks_observe ..) (hpolicy ▸ h.policy) (h.padded.observe t a)
  | acknowledge started =>
    have hpolicy := (acknowledgeStarts_window started r.pool).policy
    exact h.shrink (PoolState.shrinks_acknowledgeStarts started r.pool) (hpolicy ▸ h.policy)
      (h.padded.acknowledgeStarts started)
  | resume =>
    have hpolicy := (resume_window (H := H) r.pool t).policy
    exact h.shrink (sameLists_resume ..).shrinks (hpolicy ▸ h.policy) (h.padded.resume t)
  | configure p =>
    obtain ⟨-, -, -, -, hpolicy⟩ := configure_window r.pool p
    refine h.shrink (sameLists_configure ..).shrinks ?_ (h.padded.configure p)
    exact hpolicy.elim (fun he => he ▸ h.policy) id
  | housekeep k =>
    obtain ⟨hretired, -, hlimit, hversion⟩ := htidy k rfl
    have hsame : r.pool.SameLists (r.pool.housekeep k) := ⟨rfl, rfl, hretired, hlimit, hversion⟩
    exact h.shrink hsame.shrinks h.policy (h.padded.sameWait ⟨rfl, rfl, rfl⟩)

theorem portable_of_reach {w : PoolWorkflow} (hr : (workflows H).Reach w) : w.pool.Portable := by
  refine hr.invariant (P := fun w => w.pool.Portable) ?_ ?_
  · rintro w ⟨⟨pool, generation, policy, hvalid, hpool, -, -⟩, -⟩
    rw [hpool]
    exact ⟨hvalid, fun p hp => (nomatch hp), rfl, rfl, Nat.zero_le _, Nat.zero_le _, Nat.zero_le _⟩
  · rintro w w' - h ⟨t, act, hfollows, rfl⟩
    cases act with
    | act =>
      refine PoolRun.act_portable h t fun k hk => ?_
      subst hk
      exact hfollows
    | retire => exact h
    | retired =>
      -- the batch leaves the list, and nothing else happens
      refine h.shrink ⟨Nat.le_refl _, ?_, Nat.le_refl _, rfl, rfl⟩ h.policy
        (h.padded.sameWait ⟨rfl, rfl, rfl⟩)
      simp only [PoolState.held, PoolWorkflow.follow, length_drop]
      omega
    | unretired => exact h

/-- **The pool can always continue as new.** In every run of the pool
workflow, whatever rows are observed and when, a retained padding is the one the
cooling waits for and at most a second long, and every list is within the
bound that a snapshot checks; no more permits than the limit wait for
their claim. -/
theorem pool_continues {w : PoolWorkflow} (hr : (workflows H).Reach w) :
    w.pool.validRecoveryPadding = true
      ∧ (∀ p, w.pool.recoveryPadding = some p → w.pool.controller.cooling = true
        ∧ w.pool.controller.nextEligible = p.expiry ∧ p.floor ≤ p.expiry
        ∧ p.expiry ≤ p.floor + second)
      ∧ w.pool.startIntents.length ≤ 64
      ∧ w.pool.outstanding.length + w.pool.requestRetirements.length ≤ 1000
      ∧ 0 ≤ w.pool.pendingClaimLimit ∧ w.pool.pendingClaimLimit ≤ 64
      ∧ (0 < w.pool.pendingClaimLimit →
        ((w.pool.outstanding.countP fun p => !p.claimed : ℕ) : ℤ) ≤ w.pool.pendingClaimLimit) := by
  have h := portable_of_reach hr
  refine ⟨h.validRecoveryPadding, fun p hp => ?_, h.intents, h.held, ?_, ?_, fun _ => ?_⟩
  · obtain ⟨-, hle, hsec, hcool, hend⟩ := h.padded p hp
    exact ⟨hcool, hend, hle, by omega⟩
  · rw [h.pendingClaimLimit]
    decide
  · rw [h.pendingClaimLimit]
    decide
  · rw [h.pendingClaimLimit]
    exact_mod_cast h.pending

namespace Sample

/-- The sample pool with jitter, before its first grant. -/
def jittery : PoolWorkflow :=
  { pool := .new "pool" 2 { policy with recoveryJitterMS := 500 }, now := 1000 * second }

/-- Resumed by its operator. -/
def resumed : PoolWorkflow := jittery.follow hashes (1001 * second) (.act .resume)

theorem resumed_reach : (workflows hashes).Reach resumed := by
  have hinit : (workflows hashes).init jittery :=
    ⟨⟨"pool", 2, _, by decide, rfl, rfl, rfl⟩, rfl⟩
  exact (System.Reach.init hinit).step ⟨1001 * second, .act .resume, trivial, rfl⟩

end Sample

open Sample

theorem pool_continues_sample :
    resumed.pool.recoveryPadding = some ⟨1001 * second, 1001 * second⟩
      ∧ resumed.pool.validRecoveryPadding = true :=
  ⟨by decide, (pool_continues resumed_reach).1⟩

end HardenLlm.Batch
