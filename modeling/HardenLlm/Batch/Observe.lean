import HardenLlm.Batch.Grants
import HardenLlm.Batch.Model.Workflow
/-!
# What an observation does

`Observe` has four ends: the row is about no permit that is out, it shows
at most a claim, it shows the stop of a permit whose outcome was applied
before, or it applies the outcome. `PoolState.Observes` says so once, and
everything about observations is read off it.
-/

namespace HardenLlm.Batch

variable {H : Hashes}

/-- A settlement that is newer than what the slot has seen. -/
structure Attempt.News (a : Attempt) (slot : PoolPermit) (o : AttemptObservation) : Prop where
  observation : a.observation = some o
  settled : a.state = .settled
  revised : 1 ≤ a.settlementRevision
  newer : slot.revision < a.settlementRevision

namespace PoolState

variable {s : PoolState} {t : ℤ} {a : Attempt}

/-- The slot of the permit a row is about. -/
structure Finds (s : PoolState) (a : Attempt) (slot : PoolPermit) : Prop where
  found : s.outstanding.find? (fun p => p.id = a.permitID) = some slot
  poolID : a.poolID = s.poolID
  generation : a.generation = s.generation

variable {slot : PoolPermit}

theorem Finds.mem (h : s.Finds a slot) : slot ∈ s.outstanding ∧ slot.id = a.permitID :=
  ⟨List.mem_of_find?_eq_some h.found, by simpa using List.find?_some h.found⟩

theorem Finds.unique {slot slot' : PoolPermit} (h : s.Finds a slot) (h' : s.Finds a slot') :
    slot = slot' :=
  Option.mem_unique h.found h'.found

/-- The slot of a permit that is out is found by its row. -/
theorem finds_of_mem (hn : (s.outstanding.map (·.id)).Nodup) (hs : slot ∈ s.outstanding)
    (hid : slot.id = a.permitID) (hp : a.poolID = s.poolID) (hg : a.generation = s.generation) :
    s.Finds a slot := by
  refine ⟨?_, hp, hg⟩
  have hone := filter_key hn hs
  rw [← List.head?_filter, ← hid, hone]
  rfl

/-- The state once the claim a row may show is taken in. -/
def heard (s : PoolState) (t : ℤ) (a : Attempt) : PoolState :=
  if a.claimedAt ≠ none then s.observeClaim t a else s

/-- **The ends of an observation.** -/
inductive Observes (H : Hashes) (s : PoolState) (t : ℤ) (a : Attempt) : PoolState → Prop
  | missed (unknown : ∀ slot, ¬ s.Finds a slot) : Observes H s t a s
  | heard {slot : PoolPermit} (finds : s.Finds a slot) (old : ∀ o, ¬ a.News slot o) :
      Observes H s t a (s.heard t a)
  | stop {slot : PoolPermit} {o : AttemptObservation} (finds : s.Finds a slot)
      (news : a.News slot o) (applied : slot.applied = true) :
      Observes H s t a (((s.heard t a).dropIntent a.permitID).settleSlot a)
  | apply {slot : PoolPermit} {o : AttemptObservation} (finds : s.Finds a slot)
      (news : a.News slot o) (fresh : slot.applied = false) :
      Observes H s t a
        ((((s.heard t a).dropIntent a.permitID).applyOutcome H t a o.outcome).settleSlot a)

theorem observes (s : PoolState) (t : ℤ) (a : Attempt) : s.Observes H t a (s.observe H t a) := by
  cases hfind : s.outstanding.find? fun p => p.id = a.permitID with
  | none =>
    have h : s.observe H t a = s := by simp only [observe, hfind]
    rw [h]
    refine .missed fun slot hs => ?_
    simp [hs.found] at hfind
  | some slot =>
    by_cases hpool : a.poolID ≠ s.poolID ∨ a.generation ≠ s.generation
    · have h : s.observe H t a = s := by simp only [observe, hfind, if_pos hpool]
      rw [h]
      exact .missed fun slot hs => hpool.elim (fun h => h hs.poolID) fun h => h hs.generation
    · push Not at hpool
      have hs : s.Finds a slot := ⟨hfind, hpool.1, hpool.2⟩
      cases hobs : a.observation with
      | none =>
        have h : s.observe H t a = s.heard t a := by
          simp [observe, hfind, hpool, hobs, PoolState.heard]
        rw [h]
        exact .heard hs fun o hn => Option.some_ne_none _ (hn.observation.symm.trans hobs)
      | some o =>
        by_cases hold : a.state ≠ .settled ∨ a.settlementRevision < 1
            ∨ a.settlementRevision ≤ slot.revision
        · have h : s.observe H t a = s.heard t a := by
            simp [observe, hfind, hpool, hobs, if_pos hold, PoolState.heard]
          rw [h]
          refine .heard hs fun o hn => ?_
          have hr := hn.revised
          have hlt := hn.newer
          rcases hold with h | h | h
          · exact h hn.settled
          · omega
          · omega
        · push Not at hold
          have hn : a.News slot o := ⟨hobs, hold.1, by omega, by omega⟩
          have h : s.observe H t a = (s.heard t a).observeSettlement H t a o.outcome slot := by
            have h₁ : ¬ a.settlementRevision < 1 := by omega
            have h₂ : ¬ a.settlementRevision ≤ slot.revision := by omega
            simp [observe, hfind, hpool, hobs, hold.1, h₁, h₂, PoolState.heard]
          rw [h, observeSettlement]
          cases happ : slot.applied with
          | true => simpa using .stop hs hn happ
          | false => simpa using .apply hs hn happ

/-- A row of no permit that is out changes nothing. -/
theorem observe_missed (h : ∀ slot, ¬ s.Finds a slot) : s.observe H t a = s := by
  have hobs := observes (H := H) s t a
  generalize s.observe H t a = s' at hobs ⊢
  cases hobs with
  | missed => rfl
  | heard hf | stop hf | apply hf => exact absurd hf (h _)

/-- **When an outcome is applied.** -/
theorem applies_iff {out : Outcome} : s.applies a = some out ↔
    ∃ slot o, s.Finds a slot ∧ a.News slot o ∧ slot.applied = false ∧ o.outcome = out := by
  constructor
  · intro h
    simp only [applies] at h
    split at h
    · simp at h
    · rename_i slot hfind
      split at h
      · simp at h
      · rename_i hno
        push Not at hno
        obtain ⟨hp, hg, hs, hr, hn, ha⟩ := hno
        obtain ⟨o, ho, rfl⟩ := Option.map_eq_some_iff.1 h
        exact ⟨slot, o, ⟨hfind, hp, hg⟩, ⟨ho, hs, by omega, by omega⟩, by simpa using ha, rfl⟩
  · rintro ⟨slot, o, hf, hn, ha, rfl⟩
    have h₁ : ¬ a.settlementRevision < 1 := by have := hn.revised; omega
    have h₂ : ¬ a.settlementRevision ≤ slot.revision := by have := hn.newer; omega
    simp [applies, hf.found, hf.poolID, hf.generation, hn.settled, hn.observation, ha, h₁, h₂]

theorem applies_of_apply {o : AttemptObservation} (hf : s.Finds a slot)
    (hn : a.News slot o) (ha : slot.applied = false) : s.applies a = some o.outcome :=
  applies_iff.2 ⟨slot, o, hf, hn, ha, rfl⟩

/-- Nothing is applied of a permit that is not out, of no news, or a second
time. -/
theorem applies_none (h : ∀ slot o, s.Finds a slot → a.News slot o → slot.applied = true) :
    s.applies a = none := by
  cases happ : s.applies a with
  | none => rfl
  | some =>
    obtain ⟨slot, o, hf, hn, hfresh, -⟩ := applies_iff.1 happ
    simp [h slot o hf hn] at hfresh

theorem applies_none_of_missed (h : ∀ slot, ¬ s.Finds a slot) : s.applies a = none :=
  applies_none fun slot _ hf _ => absurd hf (h slot)

theorem applies_none_of_old (hf : s.Finds a slot)
    (h : (∀ o, ¬ a.News slot o) ∨ slot.applied = true) : s.applies a = none := by
  refine applies_none fun slot' o hf' hn => ?_
  obtain rfl := hf.unique hf'
  exact h.resolve_left fun hold => hold o hn

/-- A row whose outcome is applied has one end only. -/
theorem observe_of_applies {out : Outcome} (h : s.applies a = some out) :
    s.observe H t a
      = (((s.heard t a).dropIntent a.permitID).applyOutcome H t a out).settleSlot a := by
  obtain ⟨slot, o, hf, hn, ha, rfl⟩ := applies_iff.1 h
  have hobs := observes (H := H) s t a
  generalize s.observe H t a = s' at hobs ⊢
  cases hobs with
  | missed hu => exact absurd hf (hu slot)
  | heard hf' hold =>
    obtain rfl := hf.unique hf'
    exact absurd hn (hold o)
  | stop hf' _ ha' =>
    obtain rfl := hf.unique hf'
    simp [ha] at ha'
  | apply hf' hn' =>
    obtain rfl := hf.unique hf'
    obtain rfl := Option.mem_unique hn.observation hn'.observation
    rfl

/-- **What an observation keeps**: what the claim, the outcome and the
settlement of the slot keep. -/
theorem observe_rule {P : PoolState → Prop} (hmissed : P s) (hheard : P (s.heard t a))
    (hdropped : P ((s.heard t a).dropIntent a.permitID))
    (happly : ∀ out, P (((s.heard t a).dropIntent a.permitID).applyOutcome H t a out))
    (hsettle : ∀ s₁, P s₁ → P (s₁.settleSlot a)) : P (s.observe H t a) := by
  have hobs := observes (H := H) s t a
  generalize s.observe H t a = s' at hobs ⊢
  cases hobs with
  | missed => exact hmissed
  | heard => exact hheard
  | stop => exact hsettle _ hdropped
  | apply => exact hsettle _ (happly _)

/-- A row whose outcome is not applied reaches the controller with its
claim at most. -/
theorem observe_controller (h : s.applies a = none) :
    (s.observe H t a).controller = s.controller
      ∨ (s.observe H t a).controller = (s.heard t a).controller := by
  have hobs := observes (H := H) s t a
  generalize s.observe H t a = s' at hobs ⊢
  cases hobs with
  | missed => exact .inl rfl
  | heard => exact .inr rfl
  | stop =>
    right
    unfold settleSlot
    split <;> rfl
  | apply hf hn ha => simp [applies_of_apply hf hn ha] at h

/-! ## What the claim part leaves alone -/

/-- Taking in a claim dates the probe and anchors the window; it neither
ends a wait nor starts one. -/
structure Undisturbed (s s' : PoolState) : Prop where
  probeID : s'.probeID = s.probeID
  episode : s'.episode = s.episode
  windowID : s'.windowID = s.windowID
  policy : s'.controller.policy = s.controller.policy
  cooling : s'.controller.cooling = s.controller.cooling
  probing : s'.controller.probing = s.controller.probing
  paused : s'.controller.paused = s.controller.paused
  nextEligible : s'.controller.nextEligible = s.controller.nextEligible
  windowStarts : s'.controller.windowStarts = s.controller.windowStarts
  recoveryPadding : s'.recoveryPadding = s.recoveryPadding
  requestRetirements : s'.requestRetirements = s.requestRetirements

variable (s t a)

theorem Undisturbed.refl : s.Undisturbed s := by constructor <;> rfl

theorem heard_undisturbed : s.Undisturbed (s.heard t a) := by
  unfold heard
  split
  · simp only [observeClaim, anchorWindow]
    split <;> constructor <;> rfl
  · exact .refl s

/-- Taking in a claim marks a slot at most. -/
theorem heard_outstanding :
    (s.heard t a).outstanding = s.outstanding
      ∨ (s.heard t a).outstanding = modifyFirst (fun p => decide (p.id = a.permitID))
        (fun p => { p with claimed := true }) s.outstanding := by
  unfold heard
  split
  · unfold observeClaim anchorWindow
    split <;> simp only [dateProbe, dropIntent, claimSlot] <;> split
    · exact .inr rfl
    · exact .inl rfl
    · exact .inr rfl
    · exact .inl rfl
  · exact .inl rfl

theorem heard_ids : (s.heard t a).outstanding.map (·.id) = s.outstanding.map (·.id) := by
  obtain hsame | hmod := heard_outstanding s t a
  · rw [hsame]
  · rw [hmod, map_modifyFirst]
    exact fun _ => rfl

/-- What the outcome of a row is applied to. -/
theorem heard_dropIntent_undisturbed : s.Undisturbed ((s.heard t a).dropIntent a.permitID) := by
  have h := heard_undisturbed s t a
  exact { h with }

end PoolState

/-- Acts that can follow one another are a run of the pool. -/
theorem PoolRun.run_acts (l : List (ℤ × PoolAct)) :
    ∀ r : PoolRun, PoolRun.Sequel H r.now r l → (pools H).Run r (r.acts H l) := by
  induction l with
  | nil => exact fun r _ => .refl r
  | cons e l ih =>
    rintro r ⟨hlater, hpermit, hrest⟩
    have hstep : (pools H).step r (r.act H e.1 e.2) := ⟨e.1, e.2, hlater, hpermit, rfl⟩
    exact (System.Run.single hstep).trans (ih _ (by rw [act_now]; exact hrest))

/-! ## Applied slots -/

/-- The pool's lists and the versions of its behaviour stay. -/
structure PoolState.SameLists (s s' : PoolState) : Prop where
  outstanding : s'.outstanding = s.outstanding
  startIntents : s'.startIntents = s.startIntents
  requestRetirements : s'.requestRetirements = s.requestRetirements
  pendingClaimLimit : s'.pendingClaimLimit = s.pendingClaimLimit
  recoveryJitterVersion : s'.recoveryJitterVersion = s.recoveryJitterVersion

namespace PoolState

variable (s : PoolState)

theorem SameLists.refl : s.SameLists s := ⟨rfl, rfl, rfl, rfl, rfl⟩

theorem SameLists.trans {s s' s'' : PoolState} (h : s.SameLists s') (h' : s'.SameLists s'') :
    s.SameLists s'' :=
  ⟨h'.outstanding.trans h.outstanding, h'.startIntents.trans h.startIntents,
    h'.requestRetirements.trans h.requestRetirements,
    h'.pendingClaimLimit.trans h.pendingClaimLimit,
    h'.recoveryJitterVersion.trans h.recoveryJitterVersion⟩

theorem sameLists_padRecoveryFloor (previous : ℤ) :
    s.SameLists (s.padRecoveryFloor H previous) := by
  simp only [padRecoveryFloor]
  split_ifs <;> exact ⟨rfl, rfl, rfl, rfl, rfl⟩

theorem sameLists_applyOutcome (t : ℤ) (a : Attempt) (out : Outcome) :
    s.SameLists (s.applyOutcome H t a out) := by
  unfold applyOutcome
  dsimp only
  split
  · unfold applyNeverDispatched
    dsimp only
    split_ifs <;> exact ⟨rfl, rfl, rfl, rfl, rfl⟩
  · split_ifs
    · exact .refl s
    · exact ⟨rfl, rfl, rfl, rfl, rfl⟩
    · exact .refl s
    · exact ⟨rfl, rfl, rfl, rfl, rfl⟩
    · have hpad := sameLists_padRecoveryFloor (H := H)
        (s.completion t a out (a.probe && decide (a.permitID = s.probeID))) s.controller.nextEligible
      have hdone : s.SameLists ((s.completion t a out
          (a.probe && decide (a.permitID = s.probeID))).padRecoveryFloor H
            s.controller.nextEligible) :=
        { hpad with }
      unfold applyCompletion
      dsimp only
      split
      · exact hdone.trans ⟨rfl, rfl, rfl, rfl, rfl⟩
      · exact hdone

theorem sameLists_resume (t : ℤ) : s.SameLists (s.resume H t) := by
  have hpad := sameLists_padRecoveryFloor (H := H) (s.recool t) s.controller.nextEligible
  unfold resume
  split
  · exact ⟨rfl, rfl, rfl, rfl, rfl⟩
  · exact { hpad with }

theorem sameLists_configure (p : Policy) : s.SameLists (s.configure p) := by
  unfold configure
  split <;> exact ⟨rfl, rfl, rfl, rfl, rfl⟩

theorem sameLists_refreshWindow (t : ℤ) : s.SameLists (s.refreshWindow t) := by
  unfold refreshWindow
  split <;> exact ⟨rfl, rfl, rfl, rfl, rfl⟩

theorem applyOutcome_outstanding (t : ℤ) (a : Attempt) (out : Outcome) :
    (s.applyOutcome H t a out).outstanding = s.outstanding :=
  (sameLists_applyOutcome s t a out).outstanding

end PoolState

/-! ## What a grant was admitted on -/

/-- A grant that succeeds was admitted on the refreshed window. -/
theorem PoolState.grant_admits {s : PoolState} {t : ℤ} {item : ReadyItem} {p : Reservation}
    (h : (s.grant H t item).1 = .ok p) :
    (s.refreshWindow t).admits t = true
      ∧ (s.refreshWindow t).Grants H t item p (s.grant H t item).2 := by
  simp only [grant] at h ⊢
  split at h
  · cases h
  · rename_i hok
    push Not at hok
    split at h
    · cases h
    · rename_i hfresh
      obtain ⟨hidle, hroom⟩ := admits_iff hok.1
      have hp : p = (s.refreshWindow t).reservationFor H t item := (Except.ok.inj h).symm
      rw [if_neg (by simp [hok]), if_neg hfresh]
      exact ⟨hok.1, hok.2, by simpa using hfresh, hp, hidle, hroom, by rw [hp]⟩

/-- **What the act of granting does**: the window is refreshed, and then a
permit is granted or not. -/
theorem PoolRun.act_grant_ok (r : PoolRun) (t : ℤ) (item : ReadyItem) :
    r.act H t (.grant item) = r.act H t .refresh
      ∨ ∃ p, (r.pool.grant H t item).1 = .ok p
        ∧ (r.act H t (.grant item)).pool = (r.pool.refreshWindow t).granted t p
        ∧ (r.act H t (.grant item)).granted = r.granted ++ [p] := by
  simp only [act]
  rcases hg : r.pool.grant H t item with ⟨res, s⟩
  cases res with
  | error =>
    left
    have hs : s = r.pool.refreshWindow t := by
      simp only [PoolState.grant] at hg
      split_ifs at hg <;> simp_all
    simp [hs]
  | ok p =>
    right
    have hok : (r.pool.grant H t item).1 = .ok p := by rw [hg]
    have hstate := (PoolState.grant_admits hok).2.state
    rw [hg] at hstate
    exact ⟨p, rfl, hstate, rfl⟩

end HardenLlm.Batch
