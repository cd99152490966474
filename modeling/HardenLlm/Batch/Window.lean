import HardenLlm.Batch.Model.Window
import HardenLlm.Batch.Observe
import HardenLlm.Batch.Probe
/-!
# Window credit

Three places give a start back: an attempt that was never dispatched, a
refusal of an old episode, and a refusal the controller completes. They
come down to one credit (`PoolState.credit`), and it is never given to
another window than the permit's. So a window's count is what was granted
in it less what was refunded to it.
-/

namespace HardenLlm.Batch

open List PoolState

variable {H : Hashes} {m : Metered} {limit : ℤ}

/-! ## What completing does to the window -/

namespace Controller

variable (c : Controller) (now dispatched reserved delay : ℤ) (kind : OutcomeKind)

/-- The window and its budget are left alone. -/
structure SameWindow (c c' : Controller) : Prop where
  policy : c'.policy = c.policy
  windowStart : c'.windowStart = c.windowStart
  windowStarts : c'.windowStarts = c.windowStarts

theorem SameWindow.refl : c.SameWindow c := ⟨rfl, rfl, rfl⟩

theorem SameWindow.trans {c c' c'' : Controller} (h : c.SameWindow c') (h' : c'.SameWindow c'') :
    c.SameWindow c'' :=
  ⟨h'.policy.trans h.policy, h'.windowStart.trans h.windowStart,
    h'.windowStarts.trans h.windowStarts⟩

theorem throttle_sameWindow : c.SameWindow (c.throttle now delay) := by
  simp only [throttle]
  split_ifs <;> exact ⟨rfl, rfl, rfl⟩

theorem completeThrottle_sameWindow (probe : Bool) :
    c.SameWindow (c.completeThrottle now dispatched probe delay) := by
  unfold completeThrottle
  split_ifs
  · exact .refl c
  · exact throttle_sameWindow ..
  · have h := throttle_sameWindow { c with probing := false } now delay
    exact { h with }

theorem success_sameWindow : c.SameWindow (c.success now) := by
  have hrecover : c.SameWindow (c.recover now) := by
    unfold recover
    split_ifs <;> exact ⟨rfl, rfl, rfl⟩
  have hcount : (c.recover now).SameWindow (c.recover now).countSuccess := by
    unfold countSuccess
    split_ifs <;> exact ⟨rfl, rfl, rfl⟩
  exact hrecover.trans hcount

/-- **Only a refusal changes the count of a window.** -/
theorem complete_sameWindow (probe : Bool) :
    (if kind = .rejected then c.refundWindow reserved else c).SameWindow
      (c.complete now dispatched reserved probe kind delay) := by
  have hkind : (if kind = .rejected then c.refundWindow reserved else c).SameWindow
      (c.completeKind now dispatched reserved probe kind delay) := by
    unfold completeKind
    by_cases hr : kind = .rejected
    · rw [if_pos hr, if_pos hr]
      exact completeThrottle_sameWindow ..
    · rw [if_neg hr, if_neg hr]
      split_ifs
      · exact completeThrottle_sameWindow ..
      · exact completeThrottle_sameWindow ..
      · exact .refl c
      · have h := success_sameWindow c now
        exact { h with }
      · exact success_sameWindow c now
      · exact .refl c
      · exact ⟨rfl, rfl, rfl⟩
      · exact .refl c
  simp only [complete]
  generalize c.completeKind now dispatched reserved probe kind delay = c₁ at hkind ⊢
  generalize (if kind = .rejected then c.refundWindow reserved else c) = c₀ at hkind ⊢
  split
  · exact hkind.trans (throttle_sameWindow ..)
  · exact hkind

theorem startPace_sameWindow : c.SameWindow (c.startPace now) := by
  unfold startPace
  dsimp only
  split_ifs <;> exact ⟨rfl, rfl, rfl⟩

/-- A start counts in a metered window only. -/
theorem start_sameWindow (h : ¬ 0 < c.policy.windowRequests) : c.SameWindow (c.start now) := by
  have hepoch : c.SameWindow (if c.epoch = 0 then { c with epoch := now } else c) := by
    split <;> exact ⟨rfl, rfl, rfl⟩
  simp only [start, startWindow, if_neg h]
  generalize (if c.epoch = 0 then { c with epoch := now } else c) = c₁ at hepoch ⊢
  split
  · exact { hepoch with }
  · exact hepoch.trans (startPace_sameWindow ..)

theorem admissionKind_rejected {out : Outcome} :
    admissionKind out = .rejected ↔ out.kind = .rejected ∧ out.admission ≠ .restricted := by
  unfold admissionKind terminalThrottle
  split_ifs with h₁ h₂
  · simp [h₁]
  · simp [h₂.2]
  · simp [h₁]

end Controller

namespace PoolState

variable {s s' : PoolState} {t now : ℤ} {a : Attempt} {out : Outcome}

/-! ## The credit of an outcome -/

/-- **What an applied outcome gives back to the current window.** -/
def credit (s : PoolState) (a : Attempt) (out : Outcome) : ℤ :=
  if a.windowID = s.windowID ∧ 0 < s.controller.windowStarts
      ∧ (out.kind = .neverDispatched ∨ (out.kind = .rejected ∧ out.admission ≠ .restricted
        ∧ (0 < s.controller.policy.windowRequests
          ∨ (a.epoch < s.episode ∧ s.controller.cooling = false)))) then 1
  else 0

/-- The window stays, with `n` starts given back. -/
structure Credits (s s' : PoolState) (n : ℤ) : Prop where
  windowID : s'.windowID = s.windowID
  anchored : s'.windowAnchored = s.windowAnchored
  policy : s'.controller.policy = s.controller.policy
  windowStart : s'.controller.windowStart = s.controller.windowStart
  windowStarts : s'.controller.windowStarts = s.controller.windowStarts - n

theorem Credits.of_sameWindow (hw : s'.windowID = s.windowID)
    (ha : s'.windowAnchored = s.windowAnchored) (hc : s.controller.SameWindow s'.controller) :
    s.Credits s' 0 :=
  ⟨hw, ha, hc.policy, hc.windowStart, by rw [hc.windowStarts]; omega⟩

theorem Credits.trans {s'' : PoolState} {m n : ℤ} (h : s.Credits s' m) (h' : s'.Credits s'' n) :
    s.Credits s'' (m + n) :=
  ⟨h'.windowID.trans h.windowID, h'.anchored.trans h.anchored, h'.policy.trans h.policy,
    h'.windowStart.trans h.windowStart, by rw [h'.windowStarts, h.windowStarts]; omega⟩

variable (s)

theorem credits_settleSlot (a : Attempt) : s.Credits (s.settleSlot a) 0 := by
  unfold settleSlot
  split_ifs <;> exact .of_sameWindow rfl rfl (.refl _)

theorem credits_padRecoveryFloor (previous : ℤ) : s.Credits (s.padRecoveryFloor H previous) 0 := by
  simp only [padRecoveryFloor]
  split_ifs <;> exact .of_sameWindow rfl rfl ⟨rfl, rfl, rfl⟩

/-- The controller's own refund, as a credit. -/
theorem credits_completion (now : ℤ) (a : Attempt) (out : Outcome) (probe : Bool)
    (hfresh : out.kind = .rejected → out.admission ≠ .restricted →
      ¬ (a.epoch < s.episode ∧ s.controller.cooling = false))
    (hsent : out.kind ≠ .neverDispatched) :
    s.Credits (s.completion now a out probe) (s.credit a out) := by
  have hw := Controller.complete_sameWindow s.controller now
    (if probe ∧ s.probeClaimAt ≠ 0 then s.probeClaimAt else s.controller.epoch)
    (if a.windowID = s.windowID then s.controller.windowStart else s.controller.windowStart - 1)
    (Controller.retryDelay out.retryAfterMS) (Controller.admissionKind out) probe
  by_cases hr : Controller.admissionKind out = .rejected
  · obtain ⟨hkind, hadm⟩ := Controller.admissionKind_rejected.1 hr
    have hold := hfresh hkind hadm
    rw [if_pos hr] at hw
    -- a start is refunded to its own window only
    have hin : s.controller.windowStart ≤ (if a.windowID = s.windowID then s.controller.windowStart
        else s.controller.windowStart - 1) ↔ a.windowID = s.windowID := by
      split_ifs with h
      · simp [h]
      · simp only [h, iff_false]
        omega
    unfold Controller.refundWindow at hw
    simp only [hin] at hw
    unfold credit
    by_cases hgives : 0 < s.controller.policy.windowRequests ∧ a.windowID = s.windowID
        ∧ 0 < s.controller.windowStarts
    · rw [if_pos hgives] at hw
      rw [if_pos ⟨hgives.2.1, hgives.2.2, .inr ⟨hkind, hadm, .inl hgives.1⟩⟩]
      exact ⟨rfl, rfl, hw.policy, hw.windowStart, hw.windowStarts⟩
    · rw [if_neg hgives] at hw
      rw [if_neg]
      · exact .of_sameWindow rfl rfl hw
      · rintro ⟨hid, hpos, h | ⟨-, -, h | h⟩⟩
        · exact hsent h
        · exact hgives ⟨h, hid, hpos⟩
        · exact hold h
  · rw [if_neg hr] at hw
    have hzero : s.credit a out = 0 := by
      unfold credit
      rw [if_neg]
      rintro ⟨-, -, h | ⟨hkind, hadm, -⟩⟩
      · exact hsent h
      · exact hr (Controller.admissionKind_rejected.2 ⟨hkind, hadm⟩)
    rw [hzero]
    exact .of_sameWindow rfl rfl hw

/-- **An applied outcome gives back its credit**, and nothing else happens
to the window. -/
theorem credits_applyOutcome (now : ℤ) (a : Attempt) (out : Outcome) :
    s.Credits (s.applyOutcome H now a out) (s.credit a out) := by
  have hzero : out.kind ≠ .neverDispatched → out.kind ≠ .rejected → s.credit a out = 0 := by
    intro hn hr
    unfold credit
    rw [if_neg]
    rintro ⟨-, -, h | h⟩
    · exact hn h
    · exact hr h.1
  unfold applyOutcome
  dsimp only
  split_ifs with hnever hstray hold hrefund hearly
  · -- never dispatched
    have hcredit : s.credit a out
        = if a.windowID = s.windowID ∧ 0 < s.controller.windowStarts then 1 else 0 := by
      simp [credit, hnever]
    rw [hcredit, applyNeverDispatched]
    dsimp only
    split_ifs <;> constructor <;> first | rfl | simp
  · rw [hzero hnever (by simp [hstray.1])]
    exact .of_sameWindow rfl rfl (.refl _)
  · -- a refusal of an old episode
    obtain ⟨-, hres, hepoch, hcool⟩ := hold
    simp only [not_or] at hres
    have hcredit : s.credit a out = 1 := by
      unfold credit
      exact if_pos ⟨hrefund.2.1, hrefund.2.2, .inr ⟨hrefund.1, hres.2, .inr ⟨hepoch, by
        simpa using hcool⟩⟩⟩
    rw [hcredit]
    exact ⟨rfl, rfl, rfl, rfl, rfl⟩
  · have hcredit : s.credit a out = 0 := by
      unfold credit
      rw [if_neg]
      rintro ⟨hid, hpos, h | ⟨hr, -⟩⟩
      · exact hnever h
      · exact hrefund ⟨hr, hid, hpos⟩
    rw [hcredit]
    exact .of_sameWindow rfl rfl (.refl _)
  · rw [hzero hnever (by simp [hearly.2.1])]
    exact .of_sameWindow rfl rfl ⟨rfl, rfl, rfl⟩
  · have hfresh : out.kind = .rejected → out.admission ≠ .restricted →
        ¬ (a.epoch < s.episode ∧ s.controller.cooling = false) := by
      intro hkind hadm ⟨hepoch, hcool⟩
      exact hold ⟨.inl hkind, by simp [hkind, hadm], hepoch, by simp [hcool]⟩
    have hc := credits_completion s now a out (a.probe && decide (a.permitID = s.probeID)) hfresh
      hnever
    have hall := hc.trans (credits_padRecoveryFloor (H := H) _ s.controller.nextEligible)
    rw [Int.add_zero] at hall
    unfold applyCompletion
    dsimp only
    split_ifs
    · exact { hall with }
    · exact hall

/-! ## The window through an observation -/

/-- What an observation gives back. -/
def refund (s : PoolState) (a : Attempt) : ℤ := ((s.applies a).map (s.credit a)).getD 0

/-- The window is anchored by an observation only at its time, by a claim
made in it. -/
structure Anchors (s s' : PoolState) (t : ℤ) (a : Attempt) : Prop where
  windowID : s'.windowID = s.windowID
  policy : s'.controller.policy = s.controller.policy
  windowStarts : s'.controller.windowStarts = s.controller.windowStarts
  anchor : (s'.windowAnchored = s.windowAnchored
      ∧ s'.controller.windowStart = s.controller.windowStart)
    ∨ (s'.windowAnchored = true ∧ s'.controller.windowStart = t)
  claimed : a.claimedAt ≠ none → a.windowID = s.windowID → s'.windowAnchored = true

theorem anchors_heard (t : ℤ) (a : Attempt) : s.Anchors (s.heard t a) t a := by
  have hu := heard_undisturbed s t a
  refine ⟨hu.windowID, hu.policy, hu.windowStarts, ?_, ?_⟩
  · unfold heard
    split
    · unfold observeClaim anchorWindow
      split
      · exact .inr ⟨rfl, rfl⟩
      · exact .inl ⟨rfl, rfl⟩
    · exact .inl ⟨rfl, rfl⟩
  · intro hclaim hid
    rw [heard, if_pos hclaim]
    unfold observeClaim anchorWindow
    split
    · rfl
    · rename_i h
      by_contra hn
      exact h ⟨hid, by simpa using hn⟩

variable {s}

theorem credit_congr (h : s.Undisturbed s') : s'.credit a out = s.credit a out := by
  simp only [credit, h.windowID, h.windowStarts, h.policy, h.episode, h.cooling]

/-- **What an observation does to the window.** -/
structure ObservesWindow (H : Hashes) (s : PoolState) (t : ℤ) (a : Attempt) : Prop where
  windowID : (s.observe H t a).windowID = s.windowID
  policy : (s.observe H t a).controller.policy = s.controller.policy
  windowStarts : (s.observe H t a).controller.windowStarts
    = s.controller.windowStarts - s.refund a
  anchor : ((s.observe H t a).windowAnchored = s.windowAnchored
      ∧ (s.observe H t a).controller.windowStart = s.controller.windowStart)
    ∨ ((s.observe H t a).windowAnchored = true ∧ (s.observe H t a).controller.windowStart = t)
  claimed : ∀ slot, s.Finds a slot → a.claimedAt ≠ none → a.windowID = s.windowID →
    (s.observe H t a).windowAnchored = true

/-- A row of a permit that is out gives back its refund, once its claim is
taken in. -/
theorem credits_observe {slot : PoolPermit} (hf : s.Finds a slot) :
    (s.heard t a).Credits (s.observe H t a) (s.refund a) := by
  have hdrop : (s.heard t a).Credits ((s.heard t a).dropIntent a.permitID) 0 :=
    .of_sameWindow rfl rfl (.refl _)
  have hobs := observes (H := H) s t a
  generalize s.observe H t a = s' at hobs ⊢
  cases hobs with
  | missed hu => exact absurd hf (hu slot)
  | heard hf hold =>
    rw [refund, applies_none_of_old hf (.inl hold)]
    exact .of_sameWindow rfl rfl (.refl _)
  | stop hf _ happlied =>
    rw [refund, applies_none_of_old hf (.inr happlied)]
    exact hdrop.trans (credits_settleSlot _ a)
  | @apply _ o hf hn hfresh =>
    have hcr := credits_applyOutcome (H := H) ((s.heard t a).dropIntent a.permitID) t a o.outcome
    rw [credit_congr (heard_dropIntent_undisturbed s t a)] at hcr
    rw [refund, applies_of_apply hf hn hfresh]
    simpa using (hdrop.trans hcr).trans (credits_settleSlot _ a)

theorem observe_window (s : PoolState) (t : ℤ) (a : Attempt) : ObservesWindow H s t a := by
  by_cases hfound : ∃ slot, s.Finds a slot
  · obtain ⟨slot, hf⟩ := hfound
    have hh := anchors_heard s t a
    have hc := credits_observe (H := H) (t := t) hf
    refine ⟨hc.windowID.trans hh.windowID, hc.policy.trans hh.policy, ?_, ?_, ?_⟩
    · rw [hc.windowStarts, hh.windowStarts]
    · rw [hc.anchored, hc.windowStart]
      exact hh.anchor
    · exact fun _ _ hclaim hid => hc.anchored.trans (hh.claimed hclaim hid)
  · have hu := not_exists.1 hfound
    have hnone : s.refund a = 0 := by rw [refund, applies_none_of_missed hu]; rfl
    have hsame := observe_missed (H := H) (t := t) hu
    refine ⟨?_, ?_, ?_, ?_, fun slot hf => absurd hf (hu slot)⟩ <;> rw [hsame]
    · omega
    · exact .inl ⟨rfl, rfl⟩

/-- A credited outcome is refundable, and of the current window. -/
theorem refund_le (s : PoolState) (a : Attempt) :
    s.refund a = 0 ∨ (s.refund a = 1 ∧ a.windowID = s.windowID ∧ 0 < s.controller.windowStarts
      ∧ ∃ out, s.applies a = some out ∧ out.refundable = true) := by
  unfold refund
  cases happ : s.applies a with
  | none => exact .inl rfl
  | some out =>
    simp only [Option.map_some, Option.getD_some, credit]
    split_ifs with h
    · refine .inr ⟨rfl, h.1, h.2.1, out, rfl, ?_⟩
      obtain hk | ⟨hk, hadm, -⟩ := h.2.2
      · simp [Outcome.refundable, hk]
      · simp [Outcome.refundable, hk, hadm]
    · exact .inl rfl

/-- While windows are metered, a refundable outcome of a window that has
starts is credited. -/
theorem refund_eq_one (hm : 0 < s.controller.policy.windowRequests)
    (hpos : 0 < s.controller.windowStarts) (hid : a.windowID = s.windowID)
    (happ : s.applies a = some out) (hr : out.refundable = true) : s.refund a = 1 := by
  simp only [refund, happ, Option.map_some, Option.getD_some, credit]
  refine if_pos ⟨hid, hpos, ?_⟩
  simp only [Outcome.refundable, Bool.or_eq_true, Bool.and_eq_true, decide_eq_true_eq] at hr
  exact hr.imp id fun h => ⟨h.1, h.2, .inl hm⟩

/-! ## The window through the other acts -/

/-- A window that has run out makes room for the next one. -/
theorem refreshWindow_cases (s : PoolState) (t : ℤ) :
    s.refreshWindow t = s
      ∨ ((s.refreshWindow t).windowID = s.windowID + 1
        ∧ (s.refreshWindow t).windowAnchored = false
        ∧ (s.refreshWindow t).controller.windowStarts = 0) := by
  unfold refreshWindow
  split
  · exact .inr ⟨rfl, rfl, rfl⟩
  · exact .inl rfl

/-- A window that is still anchored has not run out. -/
theorem refreshWindow_open (s : PoolState) (t : ℤ) (h : (s.refreshWindow t).windowAnchored = true)
    (hm : 0 < s.controller.policy.windowRequests) :
    s.refreshWindow t = s
      ∧ t < s.controller.windowStart + s.controller.policy.windowDuration := by
  unfold refreshWindow at h ⊢
  split at h
  · cases h
  · rename_i hopen
    rw [if_neg hopen]
    refine ⟨rfl, ?_⟩
    by_contra hlate
    exact hopen ⟨h, hm, by omega⟩

theorem acknowledgeStarts_window (started : List String) :
    ∀ s : PoolState, s.Credits (s.acknowledgeStarts started) 0 := by
  induction started with
  | nil => exact fun s => .of_sameWindow rfl rfl (.refl _)
  | cons id started ih =>
    intro s
    have h := ih (s.dropIntent id)
    exact { h with }

variable (s)

theorem resume_window (t : ℤ) : s.Credits (s.resume H t) 0 := by
  unfold resume
  split
  · exact .of_sameWindow rfl rfl ⟨rfl, rfl, rfl⟩
  · have h := credits_padRecoveryFloor (H := H) (s.recool t) s.controller.nextEligible
    exact { h with }

theorem resume_outstanding (t : ℤ) : (s.resume H t).outstanding = s.outstanding := by
  unfold resume
  split
  · rfl
  · exact (alike_padRecoveryFloor (H := H) (s.recool t) s.controller.nextEligible).outstanding

/-- A policy is replaced by a valid one only. -/
theorem configure_window (p : Policy) :
    (s.configure p).windowID = s.windowID ∧ (s.configure p).windowAnchored = s.windowAnchored
      ∧ (s.configure p).controller.windowStart = s.controller.windowStart
      ∧ (s.configure p).controller.windowStarts = s.controller.windowStarts
      ∧ ((s.configure p).controller.policy = s.controller.policy
        ∨ (s.configure p).controller.policy.Valid) := by
  by_cases hp : p.Valid <;> simp [configure, Controller.configure, hp]

/-- A grant counts in its window if windows are metered. -/
theorem grantController_window (t : ℤ) :
    (s.grantController t).policy = s.controller.policy
      ∧ (s.grantController t).windowStart = s.controller.windowStart
      ∧ (s.grantController t).windowStarts = s.controller.windowStarts
        + if 0 < s.controller.policy.windowRequests then 1 else 0 := by
  have h := Controller.start_sameWindow
    { s.controller with policy := { s.controller.policy with windowRequests := 0 } } t (by simp)
  refine ⟨rfl, h.windowStart, ?_⟩
  simp only [grantController, h.windowStarts]
  split <;> omega

variable {s}

/-- **Below its budget**: a grant outside cooling finds room in a metered
window. -/
theorem grant_below {item : ReadyItem} {p : Reservation} (h : (s.grant H t item).1 = .ok p)
    (hprobe : p.probe = false) (hv : s.controller.policy.Valid)
    (hm : 0 < s.controller.policy.windowRequests)
    (ha : s.windowAnchored = true → 0 < s.controller.windowStart) :
    (s.refreshWindow t).controller.windowStarts < s.controller.policy.windowRequests := by
  obtain ⟨hadmits, hgrants⟩ := grant_admits h
  have hpolicy := PoolRun.refreshWindow_policy s t
  have hcool : (s.refreshWindow t).controller.cooling = false := hgrants.probe.symm.trans hprobe
  unfold admits at hadmits
  split_ifs at hadmits with hstop hfull
  by_contra hlt
  simp only [Int.not_lt] at hlt
  cases hanc : (s.refreshWindow t).windowAnchored with
  | false => exact hfull ⟨by simp [hcool], by simp [hanc], by rw [hpolicy]; exact hm, by
      rw [hpolicy]; exact hlt⟩
  | true =>
    -- an anchored window that is full has not run out, so it is waited for
    obtain ⟨hsame, hopen⟩ := refreshWindow_open s t hanc hm
    rw [hsame] at hadmits hlt hcool hanc
    have hduration := (hv.2.2.2.2.2.2.2.2.2.2.2.2.2 hm).1
    have hstart := ha hanc
    have hwait : s.controller.windowWait t ≠ 0 := by
      unfold Controller.windowWait
      rw [if_pos ⟨hm, hlt, hopen⟩]
      have : (0 : ℤ) < second := by decide
      omega
    simp [Controller.canStart, hcool, hwait] at hadmits

/-! ## Open permits -/

/-- **What an observation closes**: the permit whose outcome it applies. -/
theorem open_observe (hn : (s.outstanding.map (·.id)).Nodup) {id : String} :
    (s.observe H t a).Open id ↔ s.Open id ∧ (s.applies a ≠ none → id ≠ a.permitID) := by
  have hheard : ∀ id, ((s.heard t a).dropIntent a.permitID).Open id ↔ s.Open id := by
    intro id
    unfold heard
    split
    · exact open_observeClaim hn
    · exact Iff.rfl
  have hslots : ((s.heard t a).outstanding.map (·.id)).Nodup := heard_ids s t a ▸ hn
  have hobs := observes (H := H) s t a
  generalize s.observe H t a = s' at hobs ⊢
  cases hobs with
  | missed hu =>
    simp [applies_none_of_missed hu]
  | heard hf hold =>
    rw [applies_none_of_old hf (.inl hold)]
    exact ⟨fun h => ⟨(hheard id).1 h, fun hne => absurd rfl hne⟩, fun h => (hheard id).2 h.1⟩
  | @stop slot o hf _ happlied =>
    rw [applies_none_of_old hf (.inr happlied)]
    rw [open_settleSlot (by exact hslots), hheard]
    simp only [ne_eq, not_true_eq_false, false_implies, and_true, and_iff_left_iff_imp]
    rintro ⟨q, hq, rfl, hopen⟩ hid
    -- the permit's only slot is applied
    have hone := filter_key hn hf.mem.1
    have : q ∈ s.outstanding.filter fun y => decide (y.id = slot.id) := by
      simp [hq, hid, hf.mem.2]
    rw [hone, mem_singleton] at this
    simp [this, happlied] at hopen
  | @apply slot o hf hnews hfresh =>
    rw [applies_of_apply hf hnews hfresh]
    have hout := applyOutcome_outstanding (H := H) ((s.heard t a).dropIntent a.permitID) t a o.outcome
    rw [open_settleSlot (by rw [hout]; exact hslots), open_congr hout, hheard]
    simp

theorem open_of_applies (happ : s.applies a = some out) : s.Open a.permitID := by
  obtain ⟨slot, o, hf, -, hfresh, -⟩ := applies_iff.1 happ
  exact ⟨slot, hf.mem.1, hf.mem.2, hfresh⟩

end PoolState

/-! ## The books of a metered pool -/

namespace Metered

variable {m : Metered} {limit t : ℤ} {pool : PoolState}

/-- The current window's starts: granted in it, and not given back. -/
def startsOf (m : Metered) (window : ℤ) : ℕ :=
  m.run.granted.countP fun p => p.windowID = window ∧ p.permitID ∉ m.refunded

/-- **The books**: what a metered pool counts is what it granted. -/
structure Books (limit : ℤ) (m : Metered) : Prop where
  valid : m.run.pool.controller.policy.Valid
  anchored : m.run.pool.windowAnchored = true → 0 < m.run.pool.controller.windowStart
  windows : ∀ p ∈ m.run.granted, p.windowID ≤ m.run.pool.windowID
  starts : m.run.pool.controller.windowStarts = m.startsOf m.run.pool.windowID
  known : ∀ id ∈ m.refunded, id ∈ m.run.granted.map fun p => p.permitID
  closed : ∀ id ∈ m.refunded, ¬ m.run.pool.Open id
  once : m.refunded.Nodup
  load : ∀ w, (m.loadOf w : ℤ) ≤ limit

namespace Books

variable (h : Books limit m)
include h

/-- An act that neither grants nor refunds. -/
theorem frame (hw : pool.windowID = m.run.pool.windowID)
    (hs : pool.controller.windowStarts = m.run.pool.controller.windowStarts)
    (hv : pool.controller.policy.Valid)
    (ha : pool.windowAnchored = true → 0 < pool.controller.windowStart)
    (ho : ∀ id, pool.Open id → m.run.pool.Open id) (now : ℤ) :
    Books limit ⟨{ m.run with pool := pool, now := now }, m.refunded⟩ where
  valid := hv
  anchored := ha
  windows := by
    intro p hp
    rw [hw]
    exact h.windows p hp
  starts := by
    rw [hs, h.starts, hw]
    rfl
  known := h.known
  closed := fun id hid hopen => h.closed id hid (ho id hopen)
  once := h.once
  load := h.load

theorem credits (hc : m.run.pool.Credits pool 0)
    (ho : pool.outstanding = m.run.pool.outstanding) (now : ℤ) :
    Books limit ⟨{ m.run with pool := pool, now := now }, m.refunded⟩ := by
  refine h.frame hc.windowID (by rw [hc.windowStarts]; omega) (hc.policy ▸ h.valid) ?_
    (fun id hid => (open_congr ho).1 hid) now
  rw [hc.anchored, hc.windowStart]
  exact h.anchored

/-- No permit is granted in a window that has not begun. -/
theorem startsOf_next : m.startsOf (m.run.pool.windowID + 1) = 0 := by
  refine countP_eq_zero.2 fun p hp => ?_
  have := h.windows p hp
  simp only [decide_eq_true_eq, not_and]
  omega

theorem refresh (t : ℤ) : Books limit ⟨m.run.act H t .refresh, m.refunded⟩ := by
  rcases refreshWindow_cases m.run.pool t with hsame | ⟨hid, hanc, hstarts⟩
  · have hc : m.run.pool.Credits (m.run.pool.refreshWindow t) 0 := by
      rw [hsame]
      exact .of_sameWindow rfl rfl (.refl _)
    exact h.credits hc (by rw [hsame]) t
  · exact {
      valid := by
        rw [PoolRun.act, PoolRun.refreshWindow_policy]
        exact h.valid
      anchored := fun ha => by
        rw [PoolRun.act, hanc] at ha
        cases ha
      windows := fun p hp => by
        have := h.windows p hp
        rw [PoolRun.act, hid]
        omega
      starts := by
        have hnext := h.startsOf_next
        rw [PoolRun.act, hstarts, hid]
        exact congrArg Nat.cast hnext.symm
      known := h.known
      closed := fun id hid hopen => h.closed id hid
        ((open_congr (alike_refreshWindow m.run.pool t).outstanding).1 hopen)
      once := h.once
      load := h.load }

/-- The slot of a permit that is open has not been refunded. -/
theorem unrefunded {id : String} (ho : m.run.pool.Open id) : id ∉ m.refunded :=
  fun hid => h.closed id hid ho

/-- **An observation refunds once and to its own window.** -/
theorem observe (hm : m.Within limit) (hmint : Minted H m.run)
    (hd : H.Distinct m.run.granted) {a : Attempt} (hshows : m.run.Shows a)
    (ht : 0 < t) :
    Books limit ⟨m.run.act H t (.observe a), m.refunded ++ m.run.refunds (.observe a)⟩
      ∧ (m.run.refunds (.observe a) = [a.permitID] → a.permitID ∉ m.refunded
        ∧ a.windowID = m.run.pool.windowID ∧ m.run.pool.refund a = 1)
      ∧ (m.run.refunds (.observe a) = [] → m.run.pool.refund a = 0) := by
  have hw := observe_window (H := H) m.run.pool t a
  have hopen : ∀ id, (m.run.pool.observe H t a).Open id ↔ _ :=
    fun id => open_observe (hmint.slots_nodup hd)
  have hanchor : (m.run.pool.observe H t a).windowAnchored = true →
      0 < (m.run.pool.observe H t a).controller.windowStart := by
    intro hanc
    obtain ⟨hsame, hstart⟩ | ⟨-, hstart⟩ := hw.anchor
    · rw [hstart]
      exact h.anchored (hsame ▸ hanc)
    · rw [hstart]
      exact ht
  have hvalid : (m.run.pool.observe H t a).controller.policy.Valid := hw.policy ▸ h.valid
  by_cases hevent : (m.run.pool.applies a).any Outcome.refundable = true
      ∧ a.windowID = m.run.pool.windowID
  · have hrefunds : m.run.refunds (.observe a) = [a.permitID] := if_pos hevent
    obtain ⟨hany, hwindow⟩ := hevent
    obtain ⟨out, happ, hr⟩ := (Option.any_eq_true _ _).1 hany
    obtain ⟨p, hp, hrow⟩ := hshows
    have hid : a.permitID = p.permitID := by rw [hrow, Reservation.stored]
    have hpw : a.windowID = p.windowID := by rw [hrow, Reservation.stored]
    have hnew := h.unrefunded (open_of_applies happ)
    -- the permit counts in the window until now
    have hcounts : decide (p.windowID = m.run.pool.windowID ∧ p.permitID ∉ m.refunded) = true := by
      rw [← hid, ← hpw]
      simp [hwindow, hnew]
    have hone := countP_key_ne (hmint.permits_nodup hd) hp
      (p := fun q => decide (q.windowID = m.run.pool.windowID ∧ q.permitID ∉ m.refunded)) hcounts
    have hpos : 0 < m.run.pool.controller.windowStarts := by
      rw [h.starts, startsOf]
      omega
    have hrefund := refund_eq_one hm.1 hpos hwindow happ hr
    refine ⟨?_, fun _ => ⟨hnew, hwindow, hrefund⟩, fun hnil => by simp [hrefunds] at hnil⟩
    rw [hrefunds]
    exact {
      valid := hvalid
      anchored := hanchor
      windows := fun q hq => by
        rw [PoolRun.act, hw.windowID]
        exact h.windows q hq
      starts := by
        have hrest : startsOf ⟨m.run.act H t (.observe a), m.refunded ++ [a.permitID]⟩
            m.run.pool.windowID = m.run.granted.countP fun q =>
              decide (q.windowID = m.run.pool.windowID ∧ q.permitID ∉ m.refunded)
                && !decide (q.permitID = p.permitID) := by
          refine countP_congr fun q _ => ?_
          simp [hid, and_assoc]
        have hwas := h.starts
        rw [startsOf] at hwas
        simp only [PoolRun.act, hw.windowID, hw.windowStarts, hrefund]
        simp only [PoolRun.act] at hrest
        rw [hrest]
        omega
      known := by
        intro id hmem
        obtain hmem | hmem := mem_append.1 hmem
        · exact h.known id hmem
        · obtain rfl := mem_singleton.1 hmem
          exact mem_map.2 ⟨p, hp, hid.symm⟩
      closed := by
        intro id hmem ho
        obtain ⟨ho, hne⟩ := (hopen id).1 ho
        obtain hmem | hmem := mem_append.1 hmem
        · exact h.closed id hmem ho
        · exact hne (by simp [happ]) (mem_singleton.1 hmem)
      once := by
        rw [nodup_append]
        refine ⟨h.once, nodup_singleton _, ?_⟩
        intro x hx y hy
        obtain rfl := mem_singleton.1 hy
        rintro rfl
        exact hnew hx
      load := by
        intro w
        have hle : loadOf ⟨m.run.act H t (.observe a), m.refunded ++ [a.permitID]⟩ w ≤ m.loadOf w := by
          refine countP_mono_left fun q _ hq => ?_
          simp only [decide_eq_true_eq, mem_append, not_or] at hq ⊢
          exact ⟨hq.1, hq.2.1, hq.2.2.1⟩
        have := h.load w
        omega }
  · have hrefunds : m.run.refunds (.observe a) = [] := if_neg hevent
    have hzero : m.run.pool.refund a = 0 := by
      obtain hz | ⟨-, hwindow, -, out, happ, hr⟩ := refund_le m.run.pool a
      · exact hz
      · exact absurd ⟨by simp [happ, hr], hwindow⟩ hevent
    refine ⟨?_, fun hone => by simp [hrefunds] at hone, fun _ => hzero⟩
    rw [hrefunds, append_nil]
    refine h.frame hw.windowID ?_ hvalid hanchor (fun id ho => ((hopen id).1 ho).1) t
    rw [hw.windowStarts, hzero]
    omega

/-- **A grant counts once**, and outside cooling it finds room. -/
theorem grant (hm : m.Within limit) {item : ReadyItem}
    (hmint : Minted H (m.run.act H t (.grant item)))
    (hd : H.Distinct (m.run.act H t (.grant item)).granted) :
    Books limit ⟨m.run.act H t (.grant item), m.refunded⟩ := by
  rcases PoolRun.act_grant_ok (H := H) m.run t item with hsame | ⟨p, hok, hpool, hgranted⟩
  · rw [hsame]
    exact h.refresh t
  · have hf : Books limit ⟨m.run.act H t .refresh, m.refunded⟩ := h.refresh t
    have hgrants := (grant_admits hok).2
    have hpw : p.windowID = (m.run.pool.refreshWindow t).windowID := by rw [hgrants.made]; rfl
    obtain ⟨hpolicy, hstart, hstarts⟩ :=
      grantController_window (m.run.pool.refreshWindow t) t
    have hmetered : 0 < (m.run.pool.refreshWindow t).controller.policy.windowRequests := by
      rw [PoolRun.refreshWindow_policy]
      exact hm.1
    rw [if_pos hmetered] at hstarts
    -- a permit that has just been granted is new
    have hfresh : p.permitID ∉ m.refunded := by
      intro hmem
      have hnodup := hmint.permits_nodup hd
      rw [hgranted, map_append, nodup_append] at hnodup
      exact hnodup.2.2 _ (h.known _ hmem) _ (by simp) rfl
    have hcur : (m.run.act H t (.grant item)).pool.windowID
        = (m.run.pool.refreshWindow t).windowID := by rw [hpool]; rfl
    have hwas : (m.run.pool.refreshWindow t).controller.windowStarts
        = (m.startsOf (m.run.pool.refreshWindow t).windowID : ℤ) := hf.starts
    have hsub : ∀ w, (m.loadOf w : ℤ) ≤ startsOf m w := by
      intro w
      have : m.loadOf w ≤ startsOf m w := by
        refine countP_mono_left fun q _ hq => ?_
        simp only [decide_eq_true_eq] at hq ⊢
        exact ⟨hq.1, hq.2.2⟩
      omega
    exact {
      valid := by
        rw [hpool]
        exact hpolicy ▸ hf.valid
      anchored := by
        rw [hpool]
        intro ha
        exact hstart ▸ hf.anchored ha
      windows := by
        rw [hgranted, hcur]
        intro q hq
        obtain hq | hq := mem_append.1 hq
        · exact hf.windows q hq
        · obtain rfl := mem_singleton.1 hq
          omega
      starts := by
        have hcount : startsOf ⟨m.run.act H t (.grant item), m.refunded⟩
            (m.run.pool.refreshWindow t).windowID
            = m.startsOf (m.run.pool.refreshWindow t).windowID + 1 := by
          simp [startsOf, hgranted, hpw, hfresh]
        rw [hcur, hcount, hpool]
        simp only [granted, hstarts, hwas]
        push_cast
        rfl
      known := by
        intro id hid
        rw [hgranted, map_append]
        exact mem_append_left _ (h.known id hid)
      closed := by
        intro id hid ho
        rw [hpool] at ho
        obtain ho | rfl := (open_granted ..).1 ho
        · exact hf.closed id hid ho
        · exact hfresh hid
      once := h.once
      load := by
        intro w
        have hload := h.load w
        cases hprobe : p.probe with
        | true =>
          have : loadOf ⟨m.run.act H t (.grant item), m.refunded⟩ w = m.loadOf w := by
            simp [loadOf, hgranted, hprobe]
          omega
        | false =>
          have hbelow := grant_below hok hprobe h.valid hm.1 h.anchored
          by_cases hw : p.windowID = w
          · have hcount : loadOf ⟨m.run.act H t (.grant item), m.refunded⟩ w = m.loadOf w + 1 := by
              simp [loadOf, hgranted, hprobe, hw, hfresh]
            have hle := hsub w
            have hlimit := hm.2
            rw [← hpw, hw] at hwas
            omega
          · have : loadOf ⟨m.run.act H t (.grant item), m.refunded⟩ w = m.loadOf w := by
              simp [loadOf, hgranted, hw]
            omega }

end Books

end Metered

open Metered

theorem metered_pools : (metered H limit).Simulates (pools H) Metered.run := by
  refine ⟨fun m h => h.1, ?_⟩
  rintro m m' - ⟨t, act, hlater, hpermit, rfl, -⟩
  exact .inr ⟨t, act, hlater, hpermit, rfl⟩

theorem within_of_reach (hr : (metered H limit).Reach m) : m.Within limit ∧ 0 < m.run.now := by
  refine hr.invariant (P := fun m => m.Within limit ∧ 0 < m.run.now) ?_ ?_
  · exact fun m h => ⟨h.2.2.1, h.2.1⟩
  · rintro m m' - ⟨-, hnow⟩ ⟨t, act, hlater, -, rfl, hwithin⟩
    refine ⟨hwithin, ?_⟩
    rw [PoolRun.act_now]
    omega

/-- **The books of a metered pool are kept**, whatever it does. -/
theorem books_of_reach (hr : (metered H limit).Reach m) :
    H.Distinct m.run.granted → Books limit m := by
  refine hr.invariant (P := fun m => H.Distinct m.run.granted → Books limit m) ?_ ?_
  · rintro m ⟨⟨pool, generation, policy, hvalid, hpool, hgranted, -⟩, -, hwithin, hrefunded⟩ -
    have hlimit : 0 ≤ limit := by
      have := hwithin.1
      have := hwithin.2
      omega
    exact {
      valid := by rw [hpool]; exact hvalid
      anchored := fun h => by rw [hpool] at h; cases h
      windows := by simp [hgranted]
      starts := by rw [hpool]; simp [startsOf, hgranted, new, Controller.new]
      known := by simp [hrefunded]
      closed := by simp [hrefunded]
      once := by simp [hrefunded]
      load := fun w => by simpa [loadOf, hgranted] using hlimit }
  · rintro m m' hr ih ⟨t, act, hlater, hpermit, rfl, -⟩ hd
    have hd' : H.Distinct m.run.granted := hd.mono (granted_subset_act m.run t act)
    have h := ih hd'
    obtain ⟨hwithin, hnow⟩ := within_of_reach hr
    have hmint := minted_of_reach (metered_pools.reach hr)
    have hmint' : Minted H (m.run.act H t act) :=
      minted_of_reach ((metered_pools.reach hr).step ⟨t, act, hlater, hpermit, rfl⟩)
    have hnone : ∀ {act : PoolAct}, m.run.refunds act = [] →
        m.refunded ++ m.run.refunds act = m.refunded := fun h => by rw [h, append_nil]
    cases act with
    | grant =>
      rw [hnone rfl]
      exact h.grant hwithin hmint' hd
    | refresh =>
      rw [hnone rfl]
      exact h.refresh t
    | observe => exact (h.observe hwithin hmint hd' hpermit (by omega)).1
    | acknowledge started =>
      rw [hnone rfl]
      exact h.credits (acknowledgeStarts_window started m.run.pool)
        (alike_acknowledgeStarts started m.run.pool).outstanding t
    | resume =>
      rw [hnone rfl]
      exact h.credits (resume_window m.run.pool t) (resume_outstanding ..) t
    | configure p =>
      rw [hnone rfl]
      obtain ⟨hid, hanc, hstart, hstarts, hpolicy⟩ := configure_window m.run.pool p
      refine h.frame hid hstarts ?_ ?_ (fun id ho => ?_) t
      · exact hpolicy.elim (fun he => he ▸ h.valid) id
      · rw [hanc, hstart]
        exact h.anchored
      · exact (open_congr (alike_configure m.run.pool p).outstanding).1 ho
    | housekeep k =>
      rw [hnone rfl]
      have hc : m.run.pool.Credits (m.run.pool.housekeep k) 0 :=
        .of_sameWindow rfl rfl ⟨rfl, rfl, rfl⟩
      exact h.credits hc rfl t

/-- **Window credit accounting.** In every run whose windows are metered,
at most `limit` a window, the pool's count is what was granted in the
current window less what was refunded to it; a permit is refunded at most
once, and an observation gives back at most one start, to the window its
permit was granted in; a grant that is no probe finds the window below its
budget; and no window carries more than `limit` requests that are neither
probes nor refunded. -/
theorem window_credit {limit : ℤ} {m : Metered} (hr : (metered H limit).Reach m)
    (hd : H.Distinct m.run.granted) :
    m.run.pool.controller.windowStarts
        = (m.grantsOf m.run.pool.windowID : ℤ) - m.refundsOf m.run.pool.windowID
      ∧ m.refunded.Nodup
      ∧ (∀ id ∈ m.refunded, ∃ p ∈ m.run.granted, p.permitID = id)
      ∧ (∀ t a, m.run.now ≤ t → m.run.Shows a →
        ((m.run.pool.observe H t a).controller.windowStarts = m.run.pool.controller.windowStarts
            ∧ m.run.refunds (.observe a) = [])
          ∨ ((m.run.pool.observe H t a).controller.windowStarts
              = m.run.pool.controller.windowStarts - 1
            ∧ m.run.refunds (.observe a) = [a.permitID] ∧ a.permitID ∉ m.refunded
            ∧ a.windowID = m.run.pool.windowID))
      ∧ (∀ t item p, (m.run.pool.grant H t item).1 = .ok p → p.probe = false →
        (m.run.pool.refreshWindow t).controller.windowStarts
          < m.run.pool.controller.policy.windowRequests)
      ∧ ∀ w, (m.loadOf w : ℤ) ≤ limit := by
  have h := books_of_reach hr hd
  obtain ⟨hwithin, hnow⟩ := within_of_reach hr
  refine ⟨?_, h.once, ?_, ?_, ?_, h.load⟩
  · -- granted in the window, and either refunded or not
    have hsplit : m.grantsOf m.run.pool.windowID
        = m.refundsOf m.run.pool.windowID + m.startsOf m.run.pool.windowID := by
      unfold grantsOf refundsOf startsOf
      induction m.run.granted with
      | nil => rfl
      | cons p rest ih =>
        by_cases hw : p.windowID = m.run.pool.windowID <;> by_cases hin : p.permitID ∈ m.refunded <;>
          simp [hw, hin, ih] <;> omega
    rw [h.starts, hsplit]
    push_cast
    omega
  · intro id hid
    exact mem_map.1 (h.known id hid)
  · intro t a ht hshows
    have hmint := minted_of_reach (metered_pools.reach hr)
    obtain ⟨-, hone, hzero⟩ := h.observe hwithin hmint hd hshows (t := t) (by omega)
    have hw := observe_window (H := H) m.run.pool t a
    by_cases hevent : (m.run.pool.applies a).any Outcome.refundable = true
        ∧ a.windowID = m.run.pool.windowID
    · obtain ⟨hnew, hwindow, hrefund⟩ := hone (if_pos hevent)
      exact .inr ⟨by rw [hw.windowStarts, hrefund], if_pos hevent, hnew, hwindow⟩
    · refine .inl ⟨?_, if_neg hevent⟩
      rw [hw.windowStarts, hzero (if_neg hevent)]
      omega
  · intro t item p hp hprobe
    exact grant_below hp hprobe h.valid hwithin.1 h.anchored

/-! ## A refunded start -/

namespace Sample

/-- The sample policy with two requests a minute. -/
def meteredPolicy : Policy := { policy with windowRequests := 2, windowDuration := 60 * second }

def meter : Metered := ⟨{ pool := .new "pool" 2 meteredPolicy, now := 1000 * second }, []⟩

/-- The first permit is granted. -/
def meterGranted : Metered := ⟨meter.run.act hashes (1000 * second) (.grant readyItem), []⟩

/-- The row of a permit that lapsed unclaimed. -/
def lapsedRow : Attempt := (firstPermit.row 1).settledWith (neverDispatchedAt (1006 * second))

/-- Its permit lapses. -/
def meterRefunded : Metered :=
  ⟨meterGranted.run.act hashes (1007 * second) (.observe lapsedRow),
    meterGranted.run.refunds (.observe lapsedRow)⟩

theorem meterRefunded_eq :
    meterGranted.run.granted = [firstPermit] ∧ meterRefunded.run.granted = [firstPermit]
      ∧ meterRefunded.refunded = [firstPermit.permitID]
      ∧ meterRefunded.run.pool.controller.windowStarts = 0
      ∧ meterGranted.run.pool.controller.policy = meteredPolicy
      ∧ meterRefunded.run.pool.controller.policy = meteredPolicy := by
  decide +kernel

theorem within_meteredPolicy (h : m.run.pool.controller.policy = meteredPolicy) : m.Within 2 := by
  rw [Metered.Within, h]
  decide

theorem meterRefunded_reach : (metered hashes 2).Reach meterRefunded := by
  obtain ⟨hgranted, -, -, -, hpolicy, hpolicy'⟩ := meterRefunded_eq
  have hinit : (metered hashes 2).Reach meter :=
    .init ⟨⟨"pool", 2, meteredPolicy, by decide, rfl, rfl, rfl⟩, by decide,
      within_meteredPolicy rfl, rfl⟩
  have hgrant : (metered hashes 2).Reach meterGranted :=
    hinit.step ⟨1000 * second, .grant readyItem, by decide, trivial, rfl,
      within_meteredPolicy hpolicy⟩
  have hnow : meterGranted.run.now = 1000 * second := PoolRun.act_now ..
  refine hgrant.step ⟨1007 * second, .observe lapsedRow, by rw [hnow]; decide, ?_, rfl,
    within_meteredPolicy hpolicy'⟩
  exact ⟨firstPermit, by simp [hgranted], rfl⟩

end Sample

open Sample

/-- A permit lapses in the window it was granted in, and its start is given
back. -/
theorem window_credit_sample :
    (metered hashes 2).Reach meterRefunded
      ∧ hashes.Distinct meterRefunded.run.granted
      ∧ meterRefunded.refunded = [firstPermit.permitID]
      ∧ (meterRefunded.grantsOf meterRefunded.run.pool.windowID : ℤ)
        - meterRefunded.refundsOf meterRefunded.run.pool.windowID = 0 := by
  obtain ⟨-, hgranted, hrefunded, hstarts, -⟩ := meterRefunded_eq
  have hd : hashes.Distinct meterRefunded.run.granted := by
    rw [hgranted]
    exact hashes.distinct_singleton _
  have h := window_credit meterRefunded_reach hd
  exact ⟨meterRefunded_reach, hd, hrefunded, h.1.symm.trans hstarts⟩

end HardenLlm.Batch
