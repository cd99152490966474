import HardenLlm.Batch.Observe
import HardenLlm.Batch.Plausible
import HardenLlm.Batch.Probe
/-!
# Cooldown

A pool that is cooling waits. Throttles, hints, padding and resumes only
move the end of the wait later, a grant made meanwhile is the recovery
probe and not before that end, and only the probe's success ends it. A
restriction pauses the pool until its operator resumes it; then the next
grant is a probe, unless one was out already and still decides.
-/

namespace HardenLlm.Batch

open Controller List PoolRun PoolState

variable {H : Hashes}

/-! ## The controller's waits -/

namespace Controller

variable (c : Controller) (now dispatched reserved delay : ℤ) (kind : OutcomeKind)

/-- **The wait goes on**, and ends no earlier. -/
structure Waits (c c' : Controller) : Prop where
  cooling : c.cooling = true → c'.cooling = true
  floor : c.cooling = true → c.nextEligible ≤ c'.nextEligible

theorem Waits.of_eq {c c' : Controller} (hc : c'.cooling = c.cooling)
    (hn : c'.nextEligible = c.nextEligible) : c.Waits c' :=
  ⟨fun h => hc.trans h, fun _ => Int.le_of_eq hn.symm⟩

theorem Waits.trans {c c' c'' : Controller} (h : c.Waits c') (h' : c'.Waits c'') : c.Waits c'' :=
  ⟨fun hc => h'.cooling (h.cooling hc),
    fun hc => Int.le_trans (h.floor hc) (h'.floor (h.cooling hc))⟩

theorem throttle_waits : c.Waits (c.throttle now delay) := by
  refine ⟨fun _ => throttle_cooling .., fun _ => ?_⟩
  -- the floor survives the changes of pace and of probe before it
  have hfloor : (c.throttle now delay).nextEligible = max
      (if delay ≤ 0 then max (now + (if c.probing then min (60 * second) (c.probeDelay * 2)
          else c.probeDelay)) (c.epoch + c.policy.refillEstimate) else now + delay)
      c.nextEligible := by
    simp only [throttle]
    split_ifs <;> rfl
  rw [hfloor]
  omega

variable (probe : Bool)

theorem completeThrottle_waits : c.Waits (c.completeThrottle now dispatched probe delay) := by
  unfold completeThrottle
  split_ifs
  · exact .of_eq rfl rfl
  · exact throttle_waits ..
  · have h := throttle_waits { c with probing := false } now delay
    exact ⟨h.cooling, h.floor⟩

theorem refundWindow_waits : c.Waits (c.refundWindow reserved) := by
  unfold refundWindow
  split_ifs <;> exact .of_eq rfl rfl

theorem countSuccess_waits : c.Waits c.countSuccess := by
  unfold countSuccess
  split_ifs <;> exact .of_eq rfl rfl

/-- A success ends the wait, or was no probe's. -/
theorem success_waits : c.Waits (c.success now) ∨ (c.success now).cooling = false := by
  rw [success]
  by_cases hp : c.probing = true
  · right
    simp only [recover, hp, if_true, countSuccess]
    split_ifs <;> rfl
  · left
    simp only [recover, hp]
    exact countSuccess_waits c

/-- **Only the probe's success ends a wait.** -/
theorem complete_waits :
    c.Waits (c.complete now dispatched reserved probe kind delay)
      ∨ (probe = true ∧ kind = .completed
        ∧ (c.complete now dispatched reserved probe kind delay).cooling = false) := by
  by_cases hsuccess : kind = .completed ∧ probe = true
  · obtain ⟨rfl, rfl⟩ := hsuccess
    have heq : c.complete now dispatched reserved true .completed delay
        = { c.success now with epoch := dispatched } := by
      simp [complete, completeKind, terminalThrottle]
    rw [heq]
    exact (success_waits c now).imp (fun h => ⟨h.cooling, h.floor⟩) fun h => ⟨rfl, rfl, h⟩
  · left
    have hkind : c.Waits (c.completeKind now dispatched reserved probe kind delay) := by
      unfold completeKind
      split_ifs with _ _ _ _ hcompleted hidle hprobe
      · exact (refundWindow_waits c reserved).trans (completeThrottle_waits ..)
      · exact completeThrottle_waits ..
      · exact completeThrottle_waits ..
      · exact .of_eq rfl rfl
      · exact absurd ⟨hcompleted, hprobe⟩ hsuccess
      · -- a success outside cooling interrupts no wait
        have hc : c.cooling = false := by simpa [hprobe] using hidle
        exact ⟨fun h => by simp [hc] at h, fun h => by simp [hc] at h⟩
      · exact .of_eq rfl rfl
      · exact .of_eq rfl rfl
      · exact .of_eq rfl rfl
    unfold complete
    dsimp only
    split_ifs
    · exact hkind.trans (throttle_waits ..)
    · exact hkind

/-! ### Starts -/

theorem startWindow_nextEligible : (c.startWindow now).nextEligible = c.nextEligible := by
  unfold startWindow
  dsimp only
  split_ifs <;> rfl

theorem startPace_nextEligible : (c.startPace now).nextEligible = c.nextEligible := by
  unfold startPace
  dsimp only
  split_ifs <;> rfl

/-- A start changes no wait. -/
theorem start_nextEligible : (c.start now).nextEligible = c.nextEligible := by
  have h := startWindow_nextEligible c now
  simp only [start]
  split_ifs
  · exact h
  · exact (startPace_nextEligible ..).trans h
  · exact h
  · exact (startPace_nextEligible ..).trans h

/-! ### Restrictions -/

@[simp] theorem throttle_paused : (c.throttle now delay).paused = c.paused := by
  simp only [throttle]
  split_ifs <;> rfl

@[simp] theorem completeThrottle_paused :
    (c.completeThrottle now dispatched probe delay).paused = c.paused := by
  unfold completeThrottle
  split_ifs <;> simp

@[simp] theorem refundWindow_paused : (c.refundWindow reserved).paused = c.paused := by
  unfold refundWindow
  split_ifs <;> rfl

@[simp] theorem success_paused : (c.success now).paused = c.paused := by
  unfold success recover countSuccess
  split_ifs <;> rfl

/-- **A restriction pauses**, and nothing that completes resumes. -/
theorem complete_paused :
    (c.complete now dispatched reserved probe kind delay).paused
      = (c.paused || decide (kind = .policy)) := by
  have hkind : (c.completeKind now dispatched reserved probe kind delay).paused
      = (c.paused || decide (kind = .policy)) := by
    unfold completeKind
    split_ifs with h₁ h₂ h₃ _ h₄ _ _ h₅
    · simp [h₁]
    · simp [h₂, terminalThrottle]
    · obtain rfl | rfl := h₃ <;> simp
    · obtain rfl | rfl := h₃ <;> simp
    · simp [h₄]
    · simp [h₄]
    · simp [h₄]
    · simp [h₅]
    · simp [h₅]
  unfold complete
  dsimp only
  split_ifs
  · rw [throttle_paused, hkind]
  · exact hkind

end Controller

/-! ## The pool's waits -/

namespace PoolState

variable {s : PoolState} {now : ℤ} {a : Attempt} {out : Outcome}

/-- Padding leaves the controller alone, except that it may postpone the
end of a wait. -/
theorem padRecoveryFloor_waits (s : PoolState) (previous : ℤ) :
    s.controller.Waits (s.padRecoveryFloor H previous).controller
      ∧ (s.padRecoveryFloor H previous).controller.paused = s.controller.paused
      ∧ (s.padRecoveryFloor H previous).controller.cooling = s.controller.cooling := by
  simp only [padRecoveryFloor]
  split_ifs
  · exact ⟨.of_eq rfl rfl, rfl, rfl⟩
  · exact ⟨.of_eq rfl rfl, rfl, rfl⟩
  · exact ⟨.of_eq rfl rfl, rfl, rfl⟩
  · exact ⟨.of_eq rfl rfl, rfl, rfl⟩
  · refine ⟨⟨id, fun _ => ?_⟩, rfl, rfl⟩
    have hpad : (0 : ℤ) ≤ (H.digest s.poolID s.episode s.probeID s.policyRevision
        s.controller.nextEligible % (s.controller.policy.recoveryJitterMS.toNat + 1) : ℕ)
          * millisecond := Int.mul_nonneg (Int.natCast_nonneg _) (by decide)
    exact Int.le_add_of_nonneg_right hpad

theorem admissionKind_completed (h : Controller.admissionKind out = .completed) :
    out.kind = .completed := by
  unfold Controller.admissionKind at h
  split_ifs at h
  · cases h
  · exact h

theorem applyCompletion_controller (s : PoolState) (now : ℤ) (a : Attempt) (out : Outcome)
    (probe : Bool) : (s.applyCompletion H now a out probe).controller
      = ((s.completion now a out probe).padRecoveryFloor H s.controller.nextEligible).controller := by
  simp only [applyCompletion]
  split_ifs <;> rfl

/-- **Only the current probe's success ends the pool's wait**, and not
before its time. -/
theorem applyOutcome_waits (s : PoolState) (now : ℤ) (a : Attempt) (out : Outcome) :
    s.controller.Waits (s.applyOutcome H now a out).controller
      ∨ (a.probe = true ∧ a.permitID = s.probeID ∧ out.kind = .completed
        ∧ s.controller.nextEligible ≤ now
        ∧ (s.applyOutcome H now a out).controller.cooling = false) := by
  by_cases hnever : out.kind = .neverDispatched
  · left
    simp only [applyOutcome, hnever, if_true, applyNeverDispatched]
    split_ifs <;> exact .of_eq rfl rfl
  · simp only [applyOutcome, hnever, if_false]
    split_ifs with hstray hold hrefund hearly
    · exact .inl (.of_eq rfl rfl)
    · exact .inl (.of_eq rfl rfl)
    · exact .inl (.of_eq rfl rfl)
    · exact .inl (.of_eq rfl rfl)
    · rw [applyCompletion_controller]
      obtain ⟨hpad, -, hcool⟩ := padRecoveryFloor_waits (H := H)
        (s.completion now a out (a.probe && decide (a.permitID = s.probeID))) s.controller.nextEligible
      rcases complete_waits s.controller now
        (if (a.probe && decide (a.permitID = s.probeID)) ∧ s.probeClaimAt ≠ 0 then s.probeClaimAt
          else s.controller.epoch)
        (if a.windowID = s.windowID then s.controller.windowStart else s.controller.windowStart - 1)
        (Controller.retryDelay out.retryAfterMS) (Controller.admissionKind out)
        (a.probe && decide (a.permitID = s.probeID)) with hw | ⟨hprobe, hkind, hends⟩
      · exact .inl (Controller.Waits.trans hw hpad)
      · right
        have hcompleted := admissionKind_completed hkind
        have htime : ¬ now < s.controller.nextEligible := fun h => hearly ⟨hprobe, hcompleted, h⟩
        simp only [Bool.and_eq_true, decide_eq_true_eq] at hprobe
        exact ⟨hprobe.1, hprobe.2, hcompleted, Int.not_lt.1 htime, hcool.trans hends⟩

/-- Applying an outcome resumes nothing. -/
theorem applyOutcome_paused (h : s.controller.paused = true) :
    (s.applyOutcome H now a out).controller.paused = true := by
  simp only [applyOutcome]
  split_ifs
  · simp only [applyNeverDispatched]
    split_ifs <;> exact h
  · exact h
  · exact h
  · exact h
  · exact h
  · rw [applyCompletion_controller, (padRecoveryFloor_waits _ _).2.1]
    have := complete_paused s.controller now
    simp only [completion, Controller.completeOutcome, this, h, Bool.true_or]

/-- **A restricted outcome pauses the pool.** -/
theorem applyOutcome_restricted (hc : out.Consistent)
    (hr : out.kind = .policy ∨ out.admission = .restricted) :
    (s.applyOutcome H now a out).controller.paused = true := by
  have hnever : out.kind ≠ .neverDispatched := by
    obtain h | h := hr
    · simp [h]
    · exact (hc.restricted h).2
  have hcompleted : out.kind ≠ .completed := by
    obtain h | h := hr
    · simp [h]
    · exact (hc.restricted h).1
  have hkind : Controller.admissionKind out = .policy := by
    unfold Controller.admissionKind
    split_ifs with hres hthr
    · rfl
    · exact absurd hthr.1 (hc.policy (hr.resolve_right hres))
    · exact hr.resolve_right hres
  have happly : s.applyOutcome H now a out
      = s.applyCompletion H now a out (a.probe && decide (a.permitID = s.probeID)) := by
    simp [applyOutcome, hnever, hcompleted, hr]
  rw [happly, applyCompletion_controller, (padRecoveryFloor_waits _ _).2.1]
  simp [completion, Controller.completeOutcome, complete_paused, hkind]

theorem observe_waits (s : PoolState) (t : ℤ) (a : Attempt) :
    s.controller.Waits (s.observe H t a).controller
      ∨ ∃ out, s.applies a = some out ∧ a.probe = true ∧ a.permitID = s.probeID
        ∧ out.kind = .completed ∧ s.controller.nextEligible ≤ t
        ∧ (s.observe H t a).controller.cooling = false := by
  have hu := heard_dropIntent_undisturbed s t a
  have hheard := Waits.of_eq hu.cooling hu.nextEligible
  have hobs := observes (H := H) s t a
  generalize s.observe H t a = s' at hobs ⊢
  cases hobs with
  | missed => exact .inl (.of_eq rfl rfl)
  | heard => exact .inl hheard
  | stop =>
    left
    rw [(settleSlot_frame _ a).1]
    exact hheard
  | @apply slot o hf hn ha =>
    rw [(settleSlot_frame _ a).1]
    rcases applyOutcome_waits (H := H) ((s.heard t a).dropIntent a.permitID) t a o.outcome with
      hw | ⟨hprobe, hid, hkind, htime, hends⟩
    · exact .inl (hheard.trans hw)
    · rw [hu.probeID] at hid
      rw [hu.nextEligible] at htime
      exact .inr ⟨o.outcome, applies_of_apply hf hn ha, hprobe, hid, hkind, htime, hends⟩

theorem observe_paused (h : s.controller.paused = true) :
    (s.observe H now a).controller.paused = true := by
  have hu := (heard_dropIntent_undisturbed s now a).paused.trans h
  refine observe_rule (P := fun s₁ => s₁.controller.paused = true) h hu hu
    (fun _ => applyOutcome_paused hu) fun s₁ h₁ => ?_
  rw [(settleSlot_frame s₁ a).1]
  exact h₁

/-! ## Grants while cooling -/

theorem refreshWindow_waits (s : PoolState) (t : ℤ) :
    (s.refreshWindow t).controller.cooling = s.controller.cooling
      ∧ (s.refreshWindow t).controller.nextEligible = s.controller.nextEligible
      ∧ (s.refreshWindow t).controller.paused = s.controller.paused := by
  unfold refreshWindow
  split_ifs <;> exact ⟨rfl, rfl, rfl⟩

theorem acknowledgeStarts_controller (started : List String) :
    ∀ s : PoolState, (s.acknowledgeStarts started).controller = s.controller := by
  induction started with
  | nil => exact fun s => rfl
  | cons id started ih => exact fun s => ih (s.dropIntent id)

theorem configure_waits (s : PoolState) (p : Policy) :
    (s.configure p).controller.cooling = s.controller.cooling
      ∧ (s.configure p).controller.nextEligible = s.controller.nextEligible
      ∧ (s.configure p).controller.paused = s.controller.paused := by
  simp only [configure, Controller.configure]
  split
  · rename_i h
    split_ifs at h
    obtain rfl := Option.some.inj h
    exact ⟨rfl, rfl, rfl⟩
  · exact ⟨rfl, rfl, rfl⟩

theorem resume_waits (s : PoolState) (t : ℤ) : s.controller.Waits (s.resume H t).controller := by
  unfold resume
  split_ifs
  · exact .of_eq rfl rfl
  · have hrecool : s.controller.Waits (s.recool t).controller := by
      refine ⟨fun _ => rfl, fun _ => ?_⟩
      simp only [recool]
      omega
    exact hrecool.trans (padRecoveryFloor_waits ..).1

theorem canStart_of_admits {t : ℤ} (h : s.admits t = true) :
    s.controller.canStart t s.outstanding.length = true := by
  unfold admits at h
  split_ifs at h
  exact h

/-- **A grant made while cooling is a probe made in time**, and no grant is
made while paused. -/
theorem grant_waits {t : ℤ} {item : ReadyItem} {p : Reservation}
    (h : (s.grant H t item).1 = .ok p) :
    s.controller.paused = false ∧ p.probe = s.controller.cooling
      ∧ (s.controller.cooling = true → s.controller.nextEligible ≤ t) := by
  obtain ⟨hadmits, hgrants⟩ := grant_admits h
  obtain ⟨hcool, hnext, hpaused⟩ := refreshWindow_waits s t
  have hstart := canStart_of_admits hadmits
  unfold Controller.canStart at hstart
  split_ifs at hstart with hstop hcooling hwindow
  · rw [hcool] at hcooling
    simp only [hpaused, not_or] at hstop
    refine ⟨by simpa using hstop.1, by rw [hgrants.probe, hcool], fun _ => ?_⟩
    simpa [hnext] using hstart
  · rw [hcool] at hcooling
    simp only [hpaused, not_or] at hstop
    exact ⟨by simpa using hstop.1, by rw [hgrants.probe, hcool], fun h => absurd h hcooling⟩

/-! ## After a resume -/

/-- **The next grant will be a probe**: the pool is cooling and no probe is
out. -/
structure Primed (s : PoolState) : Prop where
  cooling : s.controller.cooling = true
  probing : s.controller.probing = false
  probeID : s.probeID = ""

theorem Primed.alike {s' : PoolState} (h : s.Primed) (ha : s.Alike s') : s'.Primed :=
  ⟨ha.controller.cooling h.cooling, ha.controller.probing.trans h.probing,
    ha.probeID.trans h.probeID⟩

theorem primed_resume (t : ℤ) (h : s.controller.probing = false) : (s.resume H t).Primed := by
  have hcool : (s.recool t).Primed := ⟨rfl, h, rfl⟩
  rw [resume, if_neg (by simp [h])]
  exact hcool.alike (alike_padRecoveryFloor ..)

theorem Primed.observe (h : s.Primed) (t : ℤ) (hid : a.permitID ≠ "") :
    (s.observe H t a).Primed := by
  have hu := heard_dropIntent_undisturbed s t a
  have hheard : ((s.heard t a).dropIntent a.permitID).Primed :=
    ⟨hu.cooling.trans h.cooling, hu.probing.trans h.probing, hu.probeID.trans h.probeID⟩
  refine observe_rule (P := Primed) h { hheard with } hheard
    (fun out => ?_) fun s₁ h₁ => ?_
  · -- no row is the probe's while there is no probe
    refine hheard.alike (applyOutcome_other (fun _ => hheard.cooling) ?_)
    simp [hheard.probeID, hid]
  · obtain ⟨hc, hp, -⟩ := settleSlot_frame s₁ a
    exact ⟨by rw [hc, h₁.cooling], by rw [hc, h₁.probing], by rw [hp, h₁.probeID]⟩

end PoolState

/-! ## Runs -/

namespace PoolRun

variable {r : PoolRun} {t : ℤ} {act : PoolAct}

theorem observe_granted (r : PoolRun) (t : ℤ) (a : Attempt) :
    (r.act H t (.observe a)).granted = r.granted := rfl

theorem resume_granted (r : PoolRun) (t : ℤ) : (r.act H t .resume).granted = r.granted := rfl

/-- **What one act does to the wait.** -/
theorem act_waits (r : PoolRun) (t : ℤ) (act : PoolAct) :
    r.pool.controller.Waits (r.act H t act).pool.controller
      ∨ ∃ a out, act = .observe a ∧ r.pool.applies a = some out ∧ a.probe = true
        ∧ a.permitID = r.pool.probeID ∧ out.kind = .completed
        ∧ r.pool.controller.nextEligible ≤ t ∧ (r.act H t act).pool.controller.cooling = false := by
  have hrefresh : r.pool.controller.Waits (r.pool.refreshWindow t).controller :=
    .of_eq (refreshWindow_waits r.pool t).1 (refreshWindow_waits r.pool t).2.1
  cases act with
  | grant item =>
    left
    rcases act_grant (H := H) r t item with h | ⟨⟨p, hg, -⟩, -⟩
    · rw [h]
      exact hrefresh
    · rw [hg.state]
      refine hrefresh.trans (.of_eq ?_ ?_)
      · exact (grantController_probe t hg.idle).2.1
      · exact start_nextEligible ..
  | refresh => exact .inl hrefresh
  | observe a =>
    refine (observe_waits r.pool t a).imp_right ?_
    rintro ⟨out, h⟩
    exact ⟨a, out, rfl, h⟩
  | acknowledge =>
    exact .inl (.of_eq (by rw [act, acknowledgeStarts_controller])
      (by rw [act, acknowledgeStarts_controller]))
  | resume => exact .inl (resume_waits r.pool t)
  | configure p =>
    obtain ⟨hc, hn, -⟩ := configure_waits r.pool p
    exact .inl (.of_eq hc hn)
  | housekeep => exact .inl (.of_eq rfl rfl)

/-- **A paused pool stays paused and grants nothing**, until it is
resumed. -/
theorem act_paused (h : r.pool.controller.paused = true) (t : ℤ) (hact : act ≠ .resume) :
    (r.act H t act).pool.controller.paused = true := by
  have hrefresh := (refreshWindow_waits r.pool t).2.2.trans h
  cases act with
  | grant item =>
    have hno : ∀ p, (r.pool.grant H t item).1 ≠ .ok p := fun p hp => by
      simp [(grant_waits hp).1] at h
    rcases act_grant (H := H) r t item with heq | ⟨⟨p, hg, hgranted⟩, -⟩
    · rw [heq]
      exact hrefresh
    · simp only [act] at hgranted
      split at hgranted
      · rename_i q _ hq
        exact absurd (by rw [hq]) (hno q)
      · simp at hgranted
  | refresh => exact hrefresh
  | observe => exact observe_paused h
  | acknowledge => rw [act, acknowledgeStarts_controller, h]
  | resume => exact absurd rfl hact
  | configure p => exact (configure_waits r.pool p).2.2.trans h
  | housekeep => exact h

variable (l : List (ℤ × PoolAct))

theorem acts_paused :
    ∀ r : PoolRun, r.pool.controller.paused = true → (∀ e ∈ l, e.2 ≠ .resume) →
      (r.acts H l).pool.controller.paused = true := by
  induction l with
  | nil => exact fun r h _ => h
  | cons e l ih =>
    intro r h hl
    exact ih _ (act_paused h e.1 (hl e mem_cons_self)) fun e' he' =>
      hl e' (mem_cons_of_mem e he')

/-- The grants of a run only grow in number. -/
theorem granted_length_le_act (r : PoolRun) (t : ℤ) (act : PoolAct) :
    r.granted.length ≤ (r.act H t act).granted.length := by
  rcases act_cases (H := H) r t act with h | ⟨item, -, ⟨p, -, hgranted⟩, -⟩
  · rw [h.granted]
  · simp [hgranted]

theorem granted_length_le_acts : ∀ r : PoolRun, r.granted.length ≤ (r.acts H l).granted.length := by
  induction l with
  | nil => exact fun r => Nat.le_refl _
  | cons e l ih => exact fun r => Nat.le_trans (granted_length_le_act r e.1 e.2) (ih _)

/-- **A primed pool stays so until it grants.** -/
theorem act_primed (h : r.pool.Primed) (t : ℤ)
    (hrows : ∀ a, act = .observe a → a.permitID ≠ "")
    (hnone : (r.act H t act).granted.length = r.granted.length) : (r.act H t act).pool.Primed := by
  cases act with
  | grant item =>
    rcases act_grant (H := H) r t item with heq | ⟨⟨p, -, hgranted⟩, -⟩
    · rw [heq]
      exact h.alike (alike_refreshWindow r.pool t)
    · simp [hgranted] at hnone
  | refresh => exact h.alike (alike_refreshWindow r.pool t)
  | observe a => exact h.observe t (hrows a rfl)
  | acknowledge started => exact h.alike (alike_acknowledgeStarts started r.pool)
  | resume => exact primed_resume t h.probing
  | configure p => exact h.alike (alike_configure r.pool p)
  | housekeep => exact { h with }

theorem acts_primed :
    ∀ r : PoolRun, r.pool.Primed → (∀ e ∈ l, ∀ a, e.2 = .observe a → a.permitID ≠ "") →
      (r.acts H l).granted = r.granted → (r.acts H l).pool.Primed := by
  induction l with
  | nil => exact fun r h _ _ => h
  | cons e l ih =>
    intro r h hrows hnone
    -- no grant in the whole list, so none in its first act and none after
    have hfirst := granted_length_le_act (H := H) r e.1 e.2
    have hrest := granted_length_le_acts (H := H) l (r.act H e.1 e.2)
    have hall : ((r.act H e.1 e.2).acts H l).granted.length = r.granted.length :=
      congrArg List.length hnone
    have hsame : (r.act H e.1 e.2).granted = r.granted := by
      rcases act_cases (H := H) r e.1 e.2 with hidle | ⟨item, -, ⟨p, -, hgranted⟩, -⟩
      · exact hidle.granted
      · rw [hgranted] at hrest
        simp at hrest
        omega
    refine ih _ (act_primed h e.1 (hrows e mem_cons_self) (by rw [hsame])) ?_ ?_
    · exact fun e' he' => hrows e' (mem_cons_of_mem e he')
    · rw [hsame]
      exact hnone

/-- While the cooling lasts its end never moves closer. -/
theorem acts_floor :
    ∀ r : PoolRun, r.Throughout H (fun r => r.pool.controller.cooling = true) l →
      r.pool.controller.nextEligible ≤ (r.acts H l).pool.controller.nextEligible := by
  induction l with
  | nil => exact fun r _ => Int.le_refl _
  | cons e l ih =>
    rintro r ⟨hcool, hrest⟩
    have hnext : (r.act H e.1 e.2).pool.controller.cooling = true := by
      cases l with
      | nil => exact hrest
      | cons => exact hrest.1
    rcases act_waits (H := H) r e.1 e.2 with h | ⟨a, out, -, -, -, -, -, -, hends⟩
    · exact Int.le_trans (h.floor hcool) (ih _ hrest)
    · simp [hends] at hnext

end PoolRun

/-- **Cooldown is honoured**, from whatever state a pool is in. While it
cools, the end of the wait never moves closer, a grant is a probe made no
earlier than that end, and only an applied success of the current probe, no
earlier either, ends the cooling. Once a restriction is applied nothing is
granted before a resume; and after a resume made while no probe is out, the
next grant is a probe. -/
theorem cooldown_honoured (H : Hashes) (r : PoolRun) :
    (∀ l, r.Throughout H (fun r => r.pool.controller.cooling = true) l →
        r.pool.controller.nextEligible ≤ (r.acts H l).pool.controller.nextEligible)
      ∧ (∀ t item p, r.pool.controller.cooling = true → (r.pool.grant H t item).1 = .ok p →
        p.probe = true ∧ r.pool.controller.nextEligible ≤ t)
      ∧ (∀ t act, r.pool.controller.cooling = true →
        (r.act H t act).pool.controller.cooling = false →
        ∃ a out, act = .observe a ∧ r.pool.applies a = some out ∧ out.kind = .completed
          ∧ a.probe = true ∧ a.permitID = r.pool.probeID ∧ r.pool.controller.nextEligible ≤ t)
      ∧ ∀ t a out l r₁, a.Plausible → r.pool.applies a = some out →
        (out.kind = .policy ∨ out.admission = .restricted) → (∀ e ∈ l, e.2 ≠ .resume) →
        r₁ = (r.act H t (.observe a)).acts H l →
        (∀ t item p, (r₁.pool.grant H t item).1 ≠ .ok p)
          ∧ (r₁.pool.controller.probing = false →
            ∀ t l r₂, (∀ e ∈ l, ∀ b, e.2 = .observe b → b.Plausible) →
              r₂ = (r₁.act H t .resume).acts H l → r₂.granted = r₁.granted →
              ∀ t item p, (r₂.pool.grant H t item).1 = .ok p → p.probe = true) := by
  refine ⟨fun l => acts_floor l r, ?_, ?_, ?_⟩
  · intro t item p hcool hp
    obtain ⟨-, hprobe, hfloor⟩ := grant_waits hp
    exact ⟨hprobe.trans hcool, hfloor hcool⟩
  · intro t act hcool hends
    rcases act_waits (H := H) r t act with h | ⟨a, out, hact, happ, hp, hid, hk, ht, -⟩
    · simp [h.cooling hcool] at hends
    · exact ⟨a, out, hact, happ, hk, hp, hid, ht⟩
  · rintro t a out l _ ha happ hres hl rfl
    obtain ⟨slot, o, -, hn, -, rfl⟩ := applies_iff.1 happ
    have hfirst : (r.act H t (.observe a)).pool.controller.paused = true := by
      simp only [PoolRun.act, observe_of_applies happ, (settleSlot_frame _ a).1]
      exact applyOutcome_restricted (ha.consistent o hn.observation) hres
    have hpaused := acts_paused (H := H) l _ hfirst hl
    refine ⟨fun t' item p hp => ?_, ?_⟩
    · simp [(grant_waits hp).1] at hpaused
    · rintro hidle t' l' _ hrows rfl hnone t'' item p hp
      have hprimed := acts_primed l' _ (primed_resume t' hidle)
        (fun e he b hb => (hrows e he b hb).named) hnone
      exact (grant_waits hp).2.1.trans hprimed.cooling

/-! ## A straggler's restriction beside a probe -/

namespace Sample

/-- The first items of the sample job. -/
def readyItems (index : ℤ) : ReadyItem := { readyItem with ref := ⟨scope, job, index⟩ }

/-- The UUIDs of the sample pool's first three permits, for the first three
items. -/
def threeHashes : Hashes where
  uuid name :=
    if name = identity "pool" 2 1 (readyItems 0) then "7421a8bc-1712-55dc-8a80-343b58ce3ad6"
    else if name = identity "pool" 2 2 (readyItems 1) then
      "1ee563ad-be77-5d51-be54-2fd22489d57c"
    else if name = identity "pool" 2 3 (readyItems 2) then
      "03add1b5-f3b4-559e-b51e-0ce69425e9de"
    else permit
  uuid_valid name := by split_ifs <;> decide
  digest _ _ _ _ _ := 0

/-- The permit of the second item is a probe's. -/
def probePermit : Reservation :=
  { firstPermit with
    permitID := "1ee563ad-be77-5d51-be54-2fd22489d57c"
    sequence := 2
    ref := ⟨scope, job, 1⟩
    workflowID := "hllm-cpa-attempt-v2/1ee563ad-be77-5d51-be54-2fd22489d57c"
    grantedAt := 1002 * second
    startBy := 1007 * second
    epoch := 2
    probe := true }

/-- The first request is out. -/
def oneOut : PoolRun where
  pool := { new "pool" 2 policy with
    sequence := 1
    outstanding := [{ id := firstPermit.permitID }]
    startIntents := [firstPermit]
    controller := { Controller.new policy with
      epoch := 1000 * second, burstLeft := 1, nextStart := 1001 * second } }
  now := 1000 * second
  granted := [firstPermit]
  peak := 4

/-- The operator has resumed the pool since, and the probe that followed is
out as well. -/
def besideProbe : PoolRun where
  pool := { oneOut.pool with
    sequence := 2
    episode := 2
    outstanding := [{ id := firstPermit.permitID }, { id := probePermit.permitID }]
    startIntents := [firstPermit, probePermit]
    probeID := probePermit.permitID
    controller := { oneOut.pool.controller with
      nextEligible := 1001 * second, cooling := true, probing := true } }
  now := 1002 * second
  granted := [firstPermit, probePermit]
  peak := 4

theorem besideProbe_eq : fresh.acts threeHashes [(1000 * second, .grant (readyItems 0)),
    (1001 * second, .resume), (1002 * second, .grant (readyItems 1))] = besideProbe := by
  have h : ∀ r : PoolRun, r.pool = besideProbe.pool ∧ r.granted = besideProbe.granted
      ∧ r.now = besideProbe.now ∧ r.peak = besideProbe.peak → r = besideProbe := by
    rintro ⟨pool, now, granted, peak⟩ ⟨rfl, rfl, rfl, rfl⟩
    rfl
  exact h _ (by decide +kernel)

/-- The row of a granted permit, claimed, settled and stopped. -/
def finished (p : Reservation) (out : Outcome) : Attempt :=
  { p.row 1 with
    state := .settled
    claimID := nonce
    claimedAt := some (1002 * second)
    dispatchedAt := some (1002 * second)
    generationDeadline := some (1100 * second)
    observation := some { outcome := out, nativeEntered := true, localStopped := true
                          observedAt := 1003 * second }
    settlementRevision := 1
    stoppedAt := some (1003 * second) }

theorem finished_plausible {p : Reservation} {out : Outcome} (hp : p.permitID ≠ "")
    (hc : out.Consistent) : (finished p out).Plausible where
  named := hp
  wellFormed := by constructor <;> simp [finished, nonce]
  unclaimed h := by simp [finished] at h
  consistent := by
    rintro o ⟨⟩
    exact hc

/-- The account is restricted, says the request that was out. -/
def restriction : Outcome := { kind := .policy, admission := .restricted }

def straggler : Attempt := finished firstPermit restriction
def probeRow : Attempt := finished probePermit { kind := .completed }

/-- The restriction pauses the pool, its operator resumes it, and then the
probe succeeds. -/
def afterProbe : PoolRun :=
  besideProbe.acts threeHashes [(1003 * second, .observe straggler),
    (1004 * second, .resume), (1005 * second, .observe probeRow)]

theorem fresh_reach (H : Hashes) : (pools H).Reach fresh :=
  .init ⟨"pool", 2, policy, by decide, rfl, rfl, rfl⟩

theorem besideProbe_reach : (pools threeHashes).Reach besideProbe := by
  rw [← besideProbe_eq]
  exact (fresh_reach _).run (run_acts _ _ ⟨by decide, trivial, by decide, trivial,
    by decide, trivial, trivial⟩)

theorem straggler_plausible : straggler.Plausible :=
  finished_plausible (by decide) ⟨by simp [restriction], by simp [restriction]⟩

theorem probeRow_plausible : probeRow.Plausible :=
  finished_plausible (by decide) (.of_quiet rfl)

theorem afterProbe_reach : (pools threeHashes).Reach afterProbe := by
  refine besideProbe_reach.run (run_acts _ _ ⟨by decide, ⟨firstPermit, ?_, rfl⟩, by decide,
    trivial, by decide, ⟨probePermit, ?_, rfl⟩, trivial⟩)
  · exact mem_cons_self
  · rw [resume_granted, observe_granted]
    exact mem_cons_of_mem _ mem_cons_self

/-- The restriction comes while the first request alone is out. -/
def barred : PoolRun := oneOut.act threeHashes (1003 * second) (.observe straggler)

end Sample

open Sample

/-- A restriction is applied while the probe is out. The resume leaves the
probe alone, its success ends the cooling, and the next grant is no
probe. -/
theorem resume_beside_probe_grants_no_probe :
    (pools threeHashes).Reach afterProbe
      ∧ afterProbe = besideProbe.acts threeHashes
        [(1003 * second, .observe straggler), (1004 * second, .resume),
          (1005 * second, .observe probeRow)]
      ∧ straggler.Plausible ∧ probeRow.Plausible
      ∧ besideProbe.pool.applies straggler = some restriction
      ∧ afterProbe.granted = besideProbe.granted
      ∧ ((afterProbe.pool.grant threeHashes (1006 * second)
          (readyItems 2)).1.toOption.map fun p => p.probe) = some false :=
  ⟨afterProbe_reach, rfl, straggler_plausible, probeRow_plausible, by decide +kernel⟩

/-- A probe that succeeds in time, and a restriction with its resume. -/
theorem cooldown_honoured_sample :
    (besideProbe.pool.controller.cooling = true
      ∧ ∃ a out, PoolAct.observe probeRow = .observe a
        ∧ besideProbe.pool.applies a = some out ∧ out.kind = .completed ∧ a.probe = true
        ∧ a.permitID = besideProbe.pool.probeID
        ∧ besideProbe.pool.controller.nextEligible ≤ 1005 * second)
      ∧ (∀ p, (barred.pool.grant threeHashes (1004 * second)
          (readyItems 1)).1 ≠ .ok p)
      ∧ ∃ p, ((barred.act threeHashes (1005 * second) .resume).pool.grant
          threeHashes (1006 * second) (readyItems 1)).1 = .ok p ∧ p.probe = true := by
  have hcool : besideProbe.pool.controller.cooling = true := by decide +kernel
  have hends : (besideProbe.act threeHashes (1005 * second)
      (.observe probeRow)).pool.controller.cooling = false := by decide +kernel
  have hprobe := (cooldown_honoured threeHashes besideProbe).2.2.1 _ _ hcool hends
  have hbarred := (cooldown_honoured threeHashes oneOut).2.2.2 (1003 * second)
    straggler restriction [] barred straggler_plausible
    (by decide +kernel) (.inl rfl) (by simp) rfl
  have hgrant : ((barred.act threeHashes (1005 * second) .resume).pool.grant
      threeHashes (1006 * second) (readyItems 1)).1.isOk = true := by decide +kernel
  obtain ⟨p, hp⟩ := exists_of_isOk hgrant
  exact ⟨⟨hcool, hprobe⟩, hbarred.1 _ _, p, hp, hbarred.2 (by decide +kernel) (1005 * second) [] _
    (by simp) rfl (resume_granted ..) _ _ p hp⟩

end HardenLlm.Batch
