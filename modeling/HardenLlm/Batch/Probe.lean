import HardenLlm.Batch.Grants
/-!
# The recovery probe

While admission is cooling, one request is let through to test the
provider. Probing is cleared on many paths, some of them early returns;
what makes them agree is that the probe's own settlement is never older
than the epoch it is measured against, and that its permit is outstanding
and not yet applied for as long as the pool is probing.
-/

namespace HardenLlm.Batch

open List

variable {H : Hashes}

/-! ## The controller -/

namespace Controller

variable (c : Controller) (now dispatched reserved delay : ℤ) (kind : OutcomeKind)

@[simp] theorem throttle_probing : (c.throttle now delay).probing = false := by
  unfold throttle
  dsimp only
  split_ifs <;> simp_all

@[simp] theorem throttle_cooling : (c.throttle now delay).cooling = true := rfl

@[simp] theorem throttle_epoch : (c.throttle now delay).epoch = c.epoch := by
  unfold throttle
  dsimp only
  split_ifs <;> rfl

/-- The probe, if one is out, is left out. -/
structure Spares (c c' : Controller) : Prop where
  probing : c'.probing = c.probing
  epoch : c'.epoch = c.epoch
  cooling : c.cooling = true → c'.cooling = true

theorem Spares.refl : c.Spares c := ⟨rfl, rfl, id⟩

theorem Spares.trans {c c' c'' : Controller} (h : c.Spares c') (h' : c'.Spares c'') : c.Spares c'' :=
  ⟨h'.probing.trans h.probing, h'.epoch.trans h.epoch, fun hc => h'.cooling (h.cooling hc)⟩

theorem refundWindow_spares : c.Spares (c.refundWindow reserved) := by
  unfold refundWindow
  split <;> exact ⟨rfl, rfl, id⟩

theorem completeThrottle_other : c.Spares (c.completeThrottle now dispatched false delay) := by
  unfold completeThrottle
  split
  · exact .refl c
  · exact ⟨rfl, throttle_epoch { c with probing := false } now delay, fun _ => rfl⟩

/-- The probe's own throttle ends it, unless it is measured against a later
epoch. -/
theorem completeThrottle_probe (h : c.epoch ≤ dispatched) :
    c.completeThrottle now dispatched true delay = c.throttle now delay := by
  rw [completeThrottle, if_neg (by omega), if_pos rfl]

/-- Counting a success touches the pace only. -/
theorem countSuccess_spares : c.Spares c.countSuccess := by
  unfold countSuccess
  split <;> exact ⟨rfl, rfl, id⟩

theorem success_probing : (c.success now).probing = false := by
  rw [success, (countSuccess_spares _).probing]
  unfold recover
  split
  · rfl
  · rename_i h
    simpa using h

theorem success_other (h : c.probing = false) : c.Spares (c.success now) := by
  have hrec : c.recover now = c := if_neg (by simp [h])
  rw [success, hrec]
  exact countSuccess_spares c

/-- **An ordinary completion spares the probe.** A success counts outside
cooling only, where no probe is out. -/
theorem complete_other (h : c.probing = true → c.cooling = true) :
    c.Spares (c.complete now dispatched reserved false kind delay) := by
  have hkind : c.Spares (c.completeKind now dispatched reserved false kind delay) := by
    have hthrottle := completeThrottle_other c now dispatched delay
    unfold completeKind
    split_ifs with _ _ _ _ _ hcool hfalse
    · exact (refundWindow_spares c reserved).trans (completeThrottle_other _ _ _ _)
    · exact hthrottle
    · exact hthrottle
    · exact .refl c
    · exact hfalse.elim
    · refine success_other c now ?_
      have hwarm : c.cooling ≠ true := by simpa using hcool
      exact Bool.eq_false_iff.mpr fun hp => hwarm (h hp)
    · exact .refl c
    · exact ⟨rfl, rfl, id⟩
    · exact .refl c
  unfold complete
  simpa using hkind

/-- **The probe's completion ends it**, whatever came of it. What neither
succeeded nor was refused is throttled by `complete` itself. -/
theorem complete_probe (h : c.epoch ≤ dispatched) :
    (c.complete now dispatched reserved true kind delay).probing = false
      ∧ ((c.complete now dispatched reserved true kind delay).epoch = c.epoch
        ∨ (c.complete now dispatched reserved true kind delay).epoch = dispatched) := by
  have hkind : ((c.completeKind now dispatched reserved true kind delay).epoch = c.epoch
        ∨ (c.completeKind now dispatched reserved true kind delay).epoch = dispatched)
      ∧ (kind = .completed ∨ kind = .rejected →
        (c.completeKind now dispatched reserved true kind delay).probing = false) := by
    have hrefund := refundWindow_spares c reserved
    unfold completeKind
    simp only [or_true, if_true]
    split_ifs with hrej hterm hfail _ hdone
    · rw [completeThrottle_probe _ _ _ _ (hrefund.epoch ▸ h)]
      exact ⟨.inl ((throttle_epoch _ _ _).trans hrefund.epoch), fun _ => throttle_probing _ _ _⟩
    · rw [completeThrottle_probe _ _ _ _ h]
      exact ⟨.inl (throttle_epoch _ _ _), fun _ => throttle_probing _ _ _⟩
    · rw [completeThrottle_probe _ _ _ _ h]
      exact ⟨.inl (throttle_epoch _ _ _), fun _ => throttle_probing _ _ _⟩
    · refine ⟨.inl rfl, ?_⟩
      rintro (rfl | rfl) <;> simp at hfail
    · exact ⟨.inr rfl, fun _ => success_probing c now⟩
    all_goals
      refine ⟨.inl rfl, ?_⟩
      rintro (rfl | rfl) <;> contradiction
  unfold complete
  dsimp only
  split
  · exact ⟨throttle_probing _ _ _, by rw [throttle_epoch]; exact hkind.1⟩
  · rename_i hdone
    refine ⟨?_, hkind.1⟩
    by_contra hp
    rw [Bool.not_eq_false] at hp
    have hne : ¬ (kind = .completed ∨ kind = .rejected) := by
      intro hk
      rw [hkind.2 hk] at hp
      exact absurd hp (by decide)
    exact hdone ⟨rfl, hp, fun e => hne (.inl e), fun e => hne (.inr e)⟩

end Controller

/-! ## The pool's share -/

namespace PoolState

variable {s s' s'' : PoolState} {now : ℤ} {a : Attempt} {out : Outcome}

/-- A permit that is out and whose outcome has not been applied. -/
def Open (s : PoolState) (id : String) : Prop :=
  ∃ p ∈ s.outstanding, p.id = id ∧ p.applied = false

/-- Nothing the recovery depends on has changed. -/
structure Alike (s s' : PoolState) : Prop where
  outstanding : s'.outstanding = s.outstanding
  probeID : s'.probeID = s.probeID
  probeClaimAt : s'.probeClaimAt = s.probeClaimAt
  controller : s.controller.Spares s'.controller

theorem Alike.refl (s : PoolState) : s.Alike s := ⟨rfl, rfl, rfl, .refl _⟩

theorem Alike.trans (h : s.Alike s') (h' : s'.Alike s'') : s.Alike s'' :=
  ⟨h'.outstanding.trans h.outstanding, h'.probeID.trans h.probeID,
    h'.probeClaimAt.trans h.probeClaimAt, h.controller.trans h'.controller⟩

theorem alike_refreshWindow (s : PoolState) (now : ℤ) : s.Alike (s.refreshWindow now) := by
  unfold refreshWindow
  split
  · exact ⟨rfl, rfl, rfl, rfl, rfl, id⟩
  · exact .refl s

theorem alike_dropIntent (s : PoolState) (id : String) : s.Alike (s.dropIntent id) :=
  ⟨rfl, rfl, rfl, .refl _⟩

theorem alike_acknowledgeStarts (started : List String) :
    ∀ s : PoolState, s.Alike (s.acknowledgeStarts started) := by
  induction started with
  | nil => exact Alike.refl
  | cons id rest ih => exact fun s => (alike_dropIntent s id).trans (ih _)

theorem alike_configure (s : PoolState) (p : Policy) : s.Alike (s.configure p) := by
  unfold configure Controller.configure
  split
  · rename_i h
    split at h
    · obtain rfl := Option.some.inj h
      exact ⟨rfl, rfl, rfl, rfl, rfl, id⟩
    · exact absurd h (by simp)
  · exact .refl s

theorem alike_padRecoveryFloor (s : PoolState) (previous : ℤ) :
    s.Alike (s.padRecoveryFloor H previous) := by
  unfold padRecoveryFloor
  dsimp only
  split_ifs <;> exact ⟨rfl, rfl, rfl, rfl, rfl, id⟩

/-- **An outcome that is not the probe's leaves the probe alone.** -/
theorem applyOutcome_other (hcool : s.controller.probing = true → s.controller.cooling = true)
    (hother : (a.probe && decide (a.permitID = s.probeID)) = false) :
    s.Alike (s.applyOutcome H now a out) := by
  have hcompletion : s.Alike (s.applyCompletion H now a out false) := by
    have hdone : s.Alike (s.completion now a out false) :=
      ⟨rfl, rfl, rfl, s.controller.complete_other _ _ _ _ _ hcool⟩
    unfold applyCompletion
    simpa using hdone.trans (alike_padRecoveryFloor _ _)
  unfold applyOutcome applyNeverDispatched
  simp only [hother, Bool.false_eq_true, false_and, if_false]
  split_ifs
  all_goals first | exact hcompletion | exact ⟨rfl, rfl, rfl, rfl, rfl, id⟩

/-- When the pool takes the probe to have been dispatched. -/
def probeDispatched (s : PoolState) : ℤ :=
  if s.probeClaimAt ≠ 0 then s.probeClaimAt else s.controller.epoch

/-- The probe is over and forgotten. -/
structure Forgets (s s' : PoolState) : Prop where
  outstanding : s'.outstanding = s.outstanding
  probeID : s'.probeID = ""
  probing : s'.controller.probing = false
  epoch : s'.controller.epoch = s.controller.epoch ∨ s'.controller.epoch = s.probeDispatched

theorem applyNeverDispatched_probe (s : PoolState) (now : ℤ) (a : Attempt) :
    s.Forgets (s.applyNeverDispatched now a true) := by
  unfold applyNeverDispatched
  simp only [if_true]
  split_ifs <;> exact ⟨rfl, rfl, rfl, .inl rfl⟩

theorem applyCompletion_probe (hepoch : s.controller.epoch ≤ s.probeDispatched) :
    s.Forgets (s.applyCompletion H now a out true) := by
  have hdone : (s.completion now a out true).controller.probing = false
      ∧ ((s.completion now a out true).controller.epoch = s.controller.epoch
        ∨ (s.completion now a out true).controller.epoch = s.probeDispatched) := by
    unfold completion
    simp only [true_and]
    exact Controller.complete_probe _ _ _ _ _ _ hepoch
  have hpad := alike_padRecoveryFloor (H := H) (s.completion now a out true)
    s.controller.nextEligible
  have hover : ((s.completion now a out true).padRecoveryFloor H
      s.controller.nextEligible).controller.probing = false := hpad.controller.probing.trans hdone.1
  unfold applyCompletion
  simp only [hover]
  refine ⟨hpad.outstanding, rfl, hover, ?_⟩
  rw [if_pos (by simp)]
  exact hdone.2.imp hpad.controller.epoch.trans hpad.controller.epoch.trans

/-- **The probe's outcome ends the probing and is forgotten.** The early
returns left for it are the two that forget it themselves: cooling rules
out an old episode's throttle. -/
theorem applyOutcome_probe (hcool : s.controller.cooling = true)
    (hepoch : s.controller.epoch ≤ s.probeDispatched)
    (hprobe : (a.probe && decide (a.permitID = s.probeID)) = true) :
    s.Forgets (s.applyOutcome H now a out) := by
  unfold applyOutcome
  simp only [hprobe, hcool, not_true_eq_false, false_and, and_false, if_false, true_and]
  split_ifs
  · exact applyNeverDispatched_probe s now a
  · exact ⟨rfl, rfl, rfl, .inl rfl⟩
  · exact applyCompletion_probe hepoch

theorem settleSlot_frame (s : PoolState) (a : Attempt) :
    (s.settleSlot a).controller = s.controller ∧ (s.settleSlot a).probeID = s.probeID
      ∧ (s.settleSlot a).probeClaimAt = s.probeClaimAt := by
  unfold settleSlot
  split <;> exact ⟨rfl, rfl, rfl⟩

/-- A grant makes the request the probe exactly while cooling, and starts
an epoch if none has begun. -/
theorem grantController_probe (t : ℤ) (hidle : s.controller.probing = false) :
    (s.grantController t).probing = s.controller.cooling
      ∧ (s.grantController t).cooling = s.controller.cooling
      ∧ (s.grantController t).epoch
        = if s.controller.epoch = 0 then t else s.controller.epoch := by
  unfold grantController Controller.start Controller.startWindow Controller.startPace
  simp only [Int.lt_irrefl, if_false]
  cases s.controller.cooling <;> by_cases he : s.controller.epoch = 0 <;>
    simp [he, hidle] <;> split_ifs <;> simp

/-! ### Open permits -/

variable {id : String}

theorem open_congr (h : s'.outstanding = s.outstanding) : s'.Open id ↔ s.Open id := by
  unfold Open
  rw [h]

theorem open_granted (s : PoolState) (t : ℤ) (p : Reservation) :
    (s.granted t p).Open id ↔ s.Open id ∨ id = p.permitID := by
  unfold Open granted
  simp only [mem_append, mem_singleton, or_and_right, exists_or, exists_eq_left, and_true]
  exact or_congr_right eq_comm

variable (hn : (s.outstanding.map (·.id)).Nodup)
include hn

theorem open_claimSlot {id k : String} : (s.claimSlot k).Open id ↔ s.Open id := by
  unfold Open claimSlot
  dsimp only
  split
  · simp only [mem_modifyFirst hn]
    constructor
    · rintro ⟨p, ⟨hp, -⟩ | ⟨q, hq, -, rfl⟩, hid, happ⟩
      · exact ⟨p, hp, hid, happ⟩
      · exact ⟨q, hq, hid, happ⟩
    · rintro ⟨p, hp, hid, happ⟩
      by_cases h : p.id = k
      · exact ⟨{ p with claimed := true }, .inr ⟨p, hp, h, rfl⟩, hid, happ⟩
      · exact ⟨p, .inl ⟨hp, h⟩, hid, happ⟩
  · exact Iff.rfl

theorem open_observeClaim : (s.observeClaim now a).Open id ↔ s.Open id := by
  rw [← open_claimSlot (k := a.permitID) hn]
  refine open_congr ?_
  unfold observeClaim anchorWindow
  split <;> rfl

/-- A settled permit is applied or gone; the others stay as open as they
were. -/
theorem open_settleSlot : (s.settleSlot a).Open id ↔ s.Open id ∧ id ≠ a.permitID := by
  unfold Open settleSlot
  split
  · simp only [mem_eraseP_key hn]
    constructor
    · rintro ⟨p, ⟨hp, hne⟩, rfl, happ⟩
      exact ⟨⟨p, hp, rfl, happ⟩, hne⟩
    · rintro ⟨⟨p, hp, rfl, happ⟩, hne⟩
      exact ⟨p, ⟨hp, hne⟩, rfl, happ⟩
  · simp only [mem_modifyFirst hn]
    constructor
    · rintro ⟨p, ⟨hp, hne⟩ | ⟨q, -, -, rfl⟩, rfl, happ⟩
      · exact ⟨⟨p, hp, rfl, happ⟩, hne⟩
      · exact absurd happ (by simp)
    · rintro ⟨⟨p, hp, rfl, happ⟩, hne⟩
      exact ⟨p, .inl ⟨hp, hne⟩, rfl, happ⟩

end PoolState

/-! ## The invariant -/

/-- **What recovery rests on.** While a probe is out, the pool is cooling,
the probe's permit is open, and its dispatch is not before the epoch. -/
structure Recovery (granted : List Reservation) (now : ℤ) (s : PoolState) : Prop where
  paired : s.controller.probing = true ↔ s.probeID ≠ ""
  cooling : s.controller.probing = true → s.controller.cooling = true
  past : s.controller.epoch = 0 ∨ s.controller.epoch ≤ now
  since : s.controller.probing = true →
    s.controller.epoch ≤ s.probeDispatched ∧ s.probeDispatched ≤ now
  probe : s.controller.probing = true → ∃ p ∈ granted, p.permitID = s.probeID ∧ p.probe = true
  slot : s.controller.probing = true → s.Open s.probeID
  only : ∀ p ∈ granted, p.probe = true → s.Open p.permitID → p.permitID = s.probeID

open PoolState

namespace Recovery

variable {granted : List Reservation} {now t : ℤ} {s s' s₁ : PoolState} {a : Attempt}
variable {p : Reservation}

section

variable (h : Recovery granted now s)
include h

/-- With no probe out, the probe has no name. -/
theorem probeID_eq (hp : s.controller.probing = false) : s.probeID = "" := by
  by_contra hne
  have := h.paired.mpr hne
  rw [hp] at this
  exact absurd this (by decide)

/-- Time passes, permits may be closed, and the probe is as it was. -/
theorem keeps (hc : s.controller.Spares s'.controller)
    (hid : s'.probeID = s.probeID) (hat : s'.probeClaimAt = s.probeClaimAt) (ht : now ≤ t)
    (hopen : ∀ id, s'.Open id → s.Open id) (hprobe : s.Open s.probeID → s'.Open s.probeID) :
    Recovery granted t s' := by
  have hp := hc.probing
  have he := hc.epoch
  have hd : s'.probeDispatched = s.probeDispatched := by
    unfold probeDispatched
    rw [hat, he]
  refine ⟨?_, ?_, ?_, ?_, ?_, ?_, ?_⟩
  · rw [hp, hid]
    exact h.paired
  · rw [hp]
    exact fun hpr => hc.cooling (h.cooling hpr)
  · rw [he]
    exact h.past.imp_right fun hle => Int.le_trans hle ht
  · rw [hp, he, hd]
    exact fun hpr => ⟨(h.since hpr).1, Int.le_trans (h.since hpr).2 ht⟩
  · rw [hp, hid]
    exact h.probe
  · rw [hp, hid]
    exact fun hpr => hprobe (h.slot hpr)
  · rw [hid]
    exact fun p hmem hpr ho => h.only p hmem hpr (hopen _ ho)

theorem alike (ha : s.Alike s') (ht : now ≤ t) : Recovery granted t s' :=
  h.keeps ha.controller ha.probeID ha.probeClaimAt ht
    (fun _ => (open_congr ha.outstanding).mp) (open_congr ha.outstanding).mpr

/-- The operator's resume finds no probe out, or leaves it out. -/
theorem resume (ht : now ≤ t) : Recovery granted t (s.resume H t) := by
  unfold PoolState.resume
  split
  · exact h.alike ⟨rfl, rfl, rfl, rfl, rfl, id⟩ ht
  · rename_i hp
    rw [Bool.not_eq_true] at hp
    have hrecool : s.Alike (s.recool t) :=
      ⟨rfl, (h.probeID_eq hp).symm, rfl, rfl, rfl, fun _ => rfl⟩
    exact h.alike (hrecool.trans (alike_padRecoveryFloor _ _)) ht

end

section

variable (h : Recovery granted t s)
include h

theorem claimSlot (hn : (s.outstanding.map (·.id)).Nodup)
    (id : String) : Recovery granted t (s.claimSlot id) :=
  h.keeps (.refl _) rfl rfl (Int.le_refl t) (fun _ => (open_claimSlot hn).mp)
    (open_claimSlot hn).mpr

/-- The probe is dated now, which is not before the epoch. -/
theorem dateProbe (id : String) : Recovery granted t (s.dateProbe t id) := by
  refine { h with since := ?_ }
  intro hp
  obtain ⟨hle, hnow⟩ := h.since hp
  unfold probeDispatched at hle hnow ⊢
  simp only [PoolState.dateProbe]
  split_ifs at hle hnow ⊢ <;> omega

/-- The epoch is dated now outside cooling only, where no probe is out. -/
theorem anchorWindow (window : ℤ) : Recovery granted t (s.anchorWindow t window) := by
  unfold PoolState.anchorWindow
  split
  · by_cases hc : s.controller.cooling = true
    · refine h.alike ⟨rfl, rfl, rfl, rfl, ?_, id⟩ (Int.le_refl t)
      exact if_pos hc
    · have hidle : ¬ s.controller.probing = true := fun hp => hc (h.cooling hp)
      refine { h with past := ?_, since := ?_ }
      · simp only [if_neg hc]
        exact .inr (Int.le_refl t)
      · exact fun hp => absurd hp hidle
  · exact h

variable (hn : (s.outstanding.map (·.id)).Nodup)
include hn

theorem observeClaim : Recovery granted t (s.observeClaim t a) :=
  (((h.claimSlot hn a.permitID).alike (alike_dropIntent _ _) (Int.le_refl t)).dateProbe
    a.permitID).anchorWindow a.windowID

/-- A settlement of another permit leaves the probe's open. -/
theorem settle_other (hne : s.probeID ≠ a.permitID) : Recovery granted t (s.settleSlot a) := by
  obtain ⟨hc, hid, hat⟩ := settleSlot_frame s a
  exact h.keeps (hc ▸ .refl _) hid hat (Int.le_refl t)
    (fun _ ho => ((open_settleSlot hn).mp ho).1)
    fun ho => (open_settleSlot hn).mpr ⟨ho, hne⟩

/-- The probe's settlement leaves nothing open that was granted as one. -/
theorem settle_probe
    (hp : s.controller.probing = true) (hf : s.Forgets s₁) (hid : a.permitID = s.probeID) :
    Recovery granted t (s₁.settleSlot a) := by
  obtain ⟨hc, hid₁, -⟩ := settleSlot_frame s₁ a
  have hidle : ¬ (s₁.settleSlot a).controller.probing = true := by
    rw [hc, hf.probing]
    decide
  have hnone : (s₁.settleSlot a).probeID = "" := hid₁.trans hf.probeID
  refine ⟨?_, fun hp' => absurd hp' hidle, ?_, fun hp' => absurd hp' hidle,
    fun hp' => absurd hp' hidle, fun hp' => absurd hp' hidle, ?_⟩
  · exact ⟨fun hp' => absurd hp' hidle, fun hne => absurd hnone hne⟩
  · rw [hc]
    obtain he | he := hf.epoch
    · rw [he]
      exact h.past
    · rw [he]
      exact .inr (h.since hp).2
  · intro p hmem hprobe hopen
    rw [open_settleSlot (hf.outstanding ▸ hn), open_congr hf.outstanding] at hopen
    exact absurd ((h.only p hmem hprobe hopen.1).trans hid.symm) hopen.2

/-- **A settlement.** The permit is the probe's exactly when the pool is
probing for it, and then its outcome has not been applied before. -/
theorem observeSettlement
    (hg : (granted.map (·.permitID)).Nodup) (hmem : p ∈ granted)
    (hrow : a.toReservation = p.stored) (hne : a.permitID ≠ "") {slot : PoolPermit}
    (hslot : s.Open a.permitID → slot.applied = false) (out : Outcome) :
    Recovery granted t (s.observeSettlement H t a out slot) := by
  have hdrop := alike_dropIntent s a.permitID
  have h₁ := h.alike hdrop (Int.le_refl t)
  have hpermit : a.permitID = p.permitID := by rw [hrow]; rfl
  unfold PoolState.observeSettlement
  dsimp only
  by_cases hmine : a.permitID = s.probeID
  · have hp : s.controller.probing = true := h.paired.mpr (hmine ▸ hne)
    have happ : slot.applied = false := hslot (hmine ▸ h.slot hp)
    have hprobe : a.probe = true := by
      obtain ⟨q, hq, hqid, hqp⟩ := h.probe hp
      have := inj_on_of_nodup_map hg hmem hq (hpermit.symm.trans (hmine.trans hqid.symm))
      rw [hrow]
      exact (congrArg Reservation.probe this).trans hqp
    rw [happ, if_neg (by decide)]
    refine h₁.settle_probe hn hp (applyOutcome_probe (h.cooling hp) (h.since hp).1 ?_) hmine
    simp [hprobe, hmine, dropIntent]
  · have hother : (a.probe && decide (a.permitID = (s.dropIntent a.permitID).probeID)) = false := by
      simp [hmine, dropIntent]
    have halike : (s.dropIntent a.permitID).Alike
        ((s.dropIntent a.permitID).applyOutcome H t a out) :=
      applyOutcome_other h₁.cooling hother
    split
    · exact h₁.settle_other hn fun e => hmine e.symm
    · refine (h₁.alike halike (Int.le_refl t)).settle_other (halike.outstanding ▸ hn) ?_
      rw [halike.probeID]
      exact fun e => hmine e.symm

end

theorem observe (h : Recovery granted now s) (ht : now ≤ t) (hn : (s.outstanding.map (·.id)).Nodup)
    (hg : (granted.map (·.permitID)).Nodup) (hmem : p ∈ granted)
    (hrow : a.toReservation = p.stored) (hne : a.permitID ≠ "") :
    Recovery granted t (s.observe H t a) := by
  have h₀ : Recovery granted t s := h.alike (.refl s) ht
  have hclaim : Recovery granted t (if a.claimedAt ≠ none then s.observeClaim t a else s) := by
    split
    · exact h₀.observeClaim hn
    · exact h₀
  unfold PoolState.observe
  split
  · exact h₀
  · rename_i slot hfind
    have hslot : s.Open a.permitID → slot.applied = false := by
      rintro ⟨q, hq, hqid, happ⟩
      have hid : slot.id = a.permitID := by simpa using List.find?_some hfind
      have := inj_on_of_nodup_map hn (mem_of_find?_eq_some hfind) hq (hid.trans hqid.symm)
      rw [this, happ]
    split
    · exact h₀
    · dsimp only
      split
      · exact hclaim
      · split
        · exact hclaim
        · split
          · refine (h₀.observeClaim hn).observeSettlement ?_ hg hmem hrow hne ?_ _
            · have hk : s.Keeps (fun _ => True) (fun _ => True) (s.observeClaim t a) :=
                keeps_observeClaim s t a trivial
              exact hk.slots.nodup hn
            · rwa [open_observeClaim hn]
          · exact h₀.observeSettlement hn hg hmem hrow hne hslot _

/-- **A grant while cooling is the probe**; outside cooling none is out and
none is made. -/
theorem grant (h : Recovery granted t s) (hn : ((granted ++ [p]).map (·.permitID)).Nodup)
    (hne : ∀ q ∈ granted, q.permitID ≠ "") (hp : p.permitID ≠ "") (hg : s.Grants H t item p s') :
    Recovery (granted ++ [p]) t s' := by
  obtain ⟨hprobing, hcooling, hepoch⟩ := grantController_probe t hg.idle
  have hnone := h.probeID_eq hg.idle
  have hfresh : ∀ q ∈ granted, q.permitID ≠ p.permitID := by
    intro q hq heq
    rw [map_append, nodup_append] at hn
    exact hn.2.2 _ (mem_map_of_mem hq) _ (by simp) heq
  -- before the grant nothing granted as a probe is open
  have hclosed : ∀ q ∈ granted, q.probe = true → ¬ s.Open q.permitID := by
    intro q hq hqp hopen
    exact hne q hq ((h.only q hq hqp hopen).trans hnone)
  have hpast : s'.controller.epoch ≤ t := by
    rw [hg.state]
    change (s.grantController t).epoch ≤ t
    rw [hepoch]
    have := h.past
    split_ifs <;> omega
  rw [hg.state] at hpast ⊢
  by_cases hc : s.controller.cooling = true
  · have hprobe : p.probe = true := hg.probe.trans hc
    have hid : (s.granted t p).probeID = p.permitID := if_pos hprobe
    have hat : (s.granted t p).probeDispatched = (s.granted t p).controller.epoch := by
      unfold probeDispatched
      rw [if_neg]
      simp [PoolState.granted, hprobe]
    have hpr : (s.granted t p).controller.probing = true := hprobing.trans hc
    refine ⟨?_, fun _ => hcooling.trans hc, .inr hpast, ?_, ?_, ?_, ?_⟩
    · rw [hid]
      exact ⟨fun _ => hp, fun _ => hpr⟩
    · rw [hat]
      exact fun _ => ⟨Int.le_refl _, hpast⟩
    · exact fun _ => ⟨p, by simp, hid.symm, hprobe⟩
    · rw [hid]
      exact fun _ => (open_granted s t p).mpr (.inr rfl)
    · intro q hq hqp hopen
      rw [hid]
      obtain hopen | heq := (open_granted s t p).mp hopen
      · obtain hq | hq := mem_append.mp hq
        · exact absurd hopen (hclosed q hq hqp)
        · rw [mem_singleton.mp hq]
      · exact heq
  · have hprobe : ¬ p.probe = true := by rwa [hg.probe]
    have hid : (s.granted t p).probeID = s.probeID := if_neg hprobe
    have hpr : ¬ (s.granted t p).controller.probing = true := by
      change ¬ (s.grantController t).probing = true
      rwa [hprobing]
    refine ⟨?_, fun h' => absurd h' hpr, .inr hpast, fun h' => absurd h' hpr,
      fun h' => absurd h' hpr, fun h' => absurd h' hpr, ?_⟩
    · rw [hid, hnone]
      exact ⟨fun h' => absurd h' hpr, fun h' => absurd rfl h'⟩
    · intro q hq hqp hopen
      obtain hq | hq := mem_append.mp hq
      · obtain hopen | heq := (open_granted s t p).mp hopen
        · exact absurd hopen (hclosed q hq hqp)
        · exact absurd heq (hfresh q hq)
      · rw [mem_singleton.mp hq] at hqp
        exact absurd hqp hprobe

end Recovery

variable {r : PoolRun}

theorem Minted.permitID_ne (hm : Minted H r) {p : Reservation} (hp : p ∈ r.granted) :
    p.permitID ≠ "" := by
  rw [hm.named p hp]
  exact validPermitID_ne_empty (H.uuid_valid _)

/-- A grant keeps the recovery sound, refused or not. -/
theorem Recovery.act_grant {t : ℤ} {item : ReadyItem} (hm : Minted H r)
    (hm' : Minted H (r.act H t (.grant item))) (hd : H.Distinct (r.act H t (.grant item)).granted)
    (ht : r.now ≤ t) (h : Recovery r.granted r.now r.pool) :
    Recovery (r.act H t (.grant item)).granted t (r.act H t (.grant item)).pool := by
  have hrefresh := h.alike (alike_refreshWindow r.pool t) ht
  obtain hrefused | ⟨⟨p, hg, hgranted⟩, -⟩ := PoolRun.act_grant (H := H) r t item
  · rw [hrefused]
    exact hrefresh
  · have hp : p ∈ (r.act H t (.grant item)).granted := by rw [hgranted]; simp
    have hn := hm'.permits_nodup hd
    rw [hgranted] at hn ⊢
    exact hrefresh.grant hn (fun q => hm.permitID_ne) (hm'.permitID_ne hp) hg

/-- **One action keeps the recovery sound.** -/
theorem Recovery.act {t : ℤ} {act : PoolAct} (hm : Minted H r)
    (hm' : Minted H (r.act H t act)) (hd : H.Distinct (r.act H t act).granted)
    (hpermit : r.Permits act) (ht : r.now ≤ t) (h : Recovery r.granted r.now r.pool) :
    Recovery (r.act H t act).granted t (r.act H t act).pool := by
  cases act with
  | grant => exact h.act_grant hm hm' hd ht
  | refresh => exact h.alike (alike_refreshWindow _ _) ht
  | observe =>
    obtain ⟨p, hp, hrow⟩ := hpermit
    refine h.observe ht (hm.slots_nodup hd) (hm.permits_nodup hd) hp hrow ?_
    rw [hrow]
    exact fun he => hm.permitID_ne hp he
  | acknowledge => exact h.alike (alike_acknowledgeStarts _ _) ht
  | resume => exact h.resume ht
  | configure => exact h.alike (alike_configure _ _) ht
  | housekeep => exact h.alike ⟨rfl, rfl, rfl, .refl _⟩ ht

theorem granted_subset_act (r : PoolRun) (t : ℤ) (act : PoolAct) :
    r.granted ⊆ (r.act H t act).granted := by
  obtain h | ⟨-, -, ⟨p, -, h⟩, -⟩ := PoolRun.act_cases (H := H) r t act
  · rw [h.granted]
    exact fun _ hp => hp
  · rw [h]
    exact subset_append_left _ _

theorem recovery_of_reach (hr : (pools H).Reach r) :
    H.Distinct r.granted → Recovery r.granted r.now r.pool := by
  refine hr.invariant (P := fun r => H.Distinct r.granted → Recovery r.granted r.now r.pool) ?_ ?_
  · rintro r ⟨pool, generation, policy, -, hpool, hgranted, -⟩ -
    constructor <;> simp [hpool, hgranted, PoolState.new, Controller.new]
  · rintro r r' hr ih ⟨t, act, ht, hpermit, rfl⟩ hd
    have h := ih (hd.mono (granted_subset_act r t act))
    have hm' := minted_of_reach (.step hr ⟨t, act, ht, hpermit, rfl⟩)
    rw [PoolRun.act_now]
    exact h.act (minted_of_reach hr) hm' hd hpermit ht

/-- **The recovery probe.** In every state of a pool's run, the pool is
probing exactly when the probe has a name. It is then cooling, and the name
is that of exactly one permit it has out, whose outcome has not been
applied. And no other permit granted as a probe is unresolved. -/
theorem recovery_probe_outstanding {r : PoolRun} (hr : (pools H).Reach r)
    (hd : H.Distinct r.granted) :
    (r.pool.controller.probing = true ↔ r.pool.probeID ≠ "")
      ∧ (r.pool.controller.probing = true → r.pool.controller.cooling = true
        ∧ ∃ p, r.pool.outstanding.filter (fun q => q.id = r.pool.probeID) = [p]
          ∧ p.applied = false)
      ∧ ∀ p ∈ r.granted, p.probe = true →
        (∃ q ∈ r.pool.outstanding, q.id = p.permitID ∧ q.applied = false) →
          p.permitID = r.pool.probeID := by
  have h := recovery_of_reach hr hd
  refine ⟨h.paired, fun hp => ⟨h.cooling hp, ?_⟩, h.only⟩
  obtain ⟨p, hmem, hid, happ⟩ := h.slot hp
  refine ⟨p, ?_, happ⟩
  rw [← hid]
  exact filter_key ((minted_of_reach hr).slots_nodup hd) hmem

namespace Sample

/-- A pool that was resumed and then granted its probe. -/
def probing : PoolRun :=
  ((({ pool := .new "pool" 2 policy, now := 1000 * second } : PoolRun).act hashes (1000 * second)
    .resume).act hashes (1001 * second) (.grant readyItem))

theorem probing_reach : (pools hashes).Reach probing := by
  refine .step (.step (.init ⟨"pool", 2, policy, ?_, rfl, rfl, rfl⟩)
    ⟨1000 * second, .resume, Int.le_refl _, trivial, rfl⟩)
    ⟨1001 * second, .grant readyItem, ?_, trivial, rfl⟩
  · decide
  · decide

end Sample

open Sample

/-- The sample pool is probing for a permit it has out. -/
theorem recovery_probe_outstanding_sample :
    (pools hashes).Reach probing ∧ hashes.Distinct probing.granted
      ∧ probing.pool.probeID = "7421a8bc-1712-55dc-8a80-343b58ce3ad6"
      ∧ ∃ p, probing.pool.outstanding.filter
          (fun q => q.id = probing.pool.probeID) = [p] ∧ p.applied = false := by
  have hd : hashes.Distinct probing.granted := by decide +kernel
  have hp : probing.pool.controller.probing = true := by decide +kernel
  exact ⟨probing_reach, hd, by decide +kernel,
    ((recovery_probe_outstanding probing_reach hd).2.1 hp).2⟩

end HardenLlm.Batch
